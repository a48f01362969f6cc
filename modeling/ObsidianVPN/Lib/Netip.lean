import ObsidianVPN.Lib.Bytes

/-!
# IP addresses and prefixes

The part of Go's package `net/netip` that deals with values. An address has no zone, and a prefix is
valid: it is not longer than its address.

* `Addr`, `Addr.fromSlice`, `Addr.unmap`, `Addr.isUnspecified`, `Addr.isMulticast`;
* `Addr.to4`: the method of `net.IP`; **`Addr.to4_eq_iff`**: it compares unmapped addresses;
* `Prefix`, `Prefix.contains`, `Prefix.masked`, `Prefix.host`;
* **`Prefix.eq_of_contains`**: masked prefixes of one length that contain a common address are equal.
-/

namespace Netip

open ByteStr

inductive Addr where
  | v4 (a : BitVec 32)
  | v6 (a : BitVec 128)
  deriving DecidableEq

namespace Addr

def is4 : Addr → Bool
  | v4 _ => true
  | v6 _ => false

def bitLen : Addr → ℕ
  | v4 _ => 32
  | v6 _ => 128

def toNat : Addr → ℕ
  | v4 a => a.toNat
  | v6 a => a.toNat

/-- `netip.AddrFromSlice`. -/
def fromSlice (b : Bytes) : Option Addr :=
  if b.length = 4 then some (v4 (.ofNat 32 (getBE b)))
  else if b.length = 16 then some (v6 (.ofNat 128 (getBE b)))
  else none

/-- An IPv4 address in the range `::ffff:0:0/96`. -/
def is4In6 : Addr → Bool
  | v4 _ => false
  | v6 a => decide (a.toNat / 2 ^ 32 = 0xffff)

def unmap : Addr → Addr
  | v4 a => v4 a
  | v6 a => if (v6 a).is4In6 then v4 (a.setWidth 32) else v6 a

/-- The first twelve bytes of an IPv4-mapped address. -/
def v4InV6Prefix : Bytes := List.replicate 10 0 ++ [0xff, 0xff]

/-- `net.IP.To4`. -/
def to4 (ip : Bytes) : Option Bytes :=
  if ip.length = 4 then some ip
  else if ip.length = 16 ∧ ip.take 12 = v4InV6Prefix then some (ip.drop 12)
  else none

/-- The address `0.0.0.0` or `::`. -/
def isUnspecified (a : Addr) : Bool := a.toNat = 0

/-- An address in `224.0.0.0/4` or `ff00::/8`, after unmapping. -/
def isMulticast (a : Addr) : Bool :=
  match a.unmap with
  | v4 b => b.toNat / 2 ^ 28 = 0xe
  | v6 b => b.toNat / 2 ^ 120 = 0xff

/-- The first `n` bits. -/
def top (a : Addr) (n : ℕ) : ℕ := a.toNat / 2 ^ (a.bitLen - n)

/-- The address with the given value in the family of `a`. -/
def withNat : Addr → ℕ → Addr
  | v4 _, n => v4 (.ofNat 32 n)
  | v6 _, n => v6 (.ofNat 128 n)

theorem toNat_lt (a : Addr) : a.toNat < 2 ^ a.bitLen := by
  cases a with
  | v4 a => exact a.isLt
  | v6 a => exact a.isLt

theorem eq_of_toNat {a b : Addr} (hfam : a.is4 = b.is4) (h : a.toNat = b.toNat) : a = b := by
  cases a with
  | v4 a =>
    cases b with
    | v4 b => exact congrArg v4 (BitVec.eq_of_toNat_eq h)
    | v6 b => simp [is4] at hfam
  | v6 a =>
    cases b with
    | v4 b => simp [is4] at hfam
    | v6 b => exact congrArg v6 (BitVec.eq_of_toNat_eq h)

/-- An address of 16 bytes is mapped if it starts like one. -/
theorem is4In6_ofNat {ip : Bytes} (h : ip.length = 16) :
    (v6 (.ofNat 128 (getBE ip))).is4In6 = decide (ip.take 12 = v4InV6Prefix) := by
  have hlow : (ip.drop 12).length = 4 := by rw [List.length_drop, h]
  have hhigh : (ip.take 12).length = 12 := by rw [List.length_take, h]; rfl
  have hlt := getBE_lt (ip.drop 12)
  have hsplit := getBE_append (ip.take 12) (ip.drop 12)
  rw [List.take_append_drop] at hsplit
  rw [hlow] at hlt hsplit
  have hval : getBE ip / 2 ^ 32 = getBE (ip.take 12) := by omega
  have hmod : getBE ip % 2 ^ 128 = getBE ip :=
    Nat.mod_eq_of_lt ((getBE_lt ip).trans_le (by rw [h]; norm_num))
  rw [is4In6, BitVec.toNat_ofNat, hmod, hval, decide_eq_decide]
  constructor
  · intro heq
    exact getBE_injOn hhigh heq
  · intro heq
    rw [heq]
    rfl

/-- `To4` does to the bytes what `unmap` does to the address. -/
theorem fromSlice_to4 {ip : Bytes} (h : ip.length = 4 ∨ ip.length = 16) :
    fromSlice ((to4 ip).getD ip) = (fromSlice ip).map unmap := by
  rcases h with h | h
  · simp [to4, fromSlice, h, unmap]
  · have hlow : (ip.drop 12).length = 4 := by rw [List.length_drop, h]
    have hfrom : fromSlice ip = some (v6 (.ofNat 128 (getBE ip))) := by
      rw [fromSlice, if_neg (by omega), if_pos h]
    rw [hfrom, Option.map_some, unmap, is4In6_ofNat h, to4, if_neg (by omega)]
    by_cases hmapped : ip.take 12 = v4InV6Prefix
    · have hsplit := getBE_append (ip.take 12) (ip.drop 12)
      rw [List.take_append_drop, hlow] at hsplit
      rw [if_pos ⟨h, hmapped⟩, Option.getD_some, fromSlice, if_pos hlow, decide_eq_true hmapped,
        if_pos rfl]
      congr 2
      apply BitVec.eq_of_toNat_eq
      rw [BitVec.toNat_setWidth, BitVec.toNat_ofNat, BitVec.toNat_ofNat]
      omega
    · rw [if_neg fun hc => hmapped hc.2, Option.getD_none, hfrom, decide_eq_false hmapped]
      rfl

theorem length_to4 {ip : Bytes} (h : ip.length = 4 ∨ ip.length = 16) :
    ((to4 ip).getD ip).length = 4 ∨ ((to4 ip).getD ip).length = 16 := by
  unfold to4
  split
  · exact h
  · split
    · rename_i hmapped
      exact .inl (by rw [Option.getD_some, List.length_drop, hmapped.1])
    · exact h

theorem fromSlice_inj {a b : Bytes} (ha : a.length = 4 ∨ a.length = 16)
    (hb : b.length = 4 ∨ b.length = 16) : fromSlice a = fromSlice b ↔ a = b := by
  refine ⟨fun h => ?_, congrArg fromSlice⟩
  have hlt : ∀ {c : Bytes} {n w : ℕ}, c.length = n → 256 ^ n = 2 ^ w → getBE c % 2 ^ w = getBE c := by
    intro c n w hc hw
    exact Nat.mod_eq_of_lt (hw ▸ hc ▸ getBE_lt c)
  rcases ha with ha | ha <;> rcases hb with hb | hb <;>
    simp only [fromSlice, ha, hb, if_true, if_false, Nat.reduceEqDiff, Option.some.injEq, v4.injEq,
      v6.injEq, reduceCtorEq] at h
  all_goals
    have hval := congrArg BitVec.toNat h
    rw [BitVec.toNat_ofNat, BitVec.toNat_ofNat, hlt ha (by norm_num), hlt hb (by norm_num)] at hval
    exact getBE_injOn (ha.trans hb.symm) hval

/-- **The bytes of `To4` are equal if the addresses are equal after unmapping.** -/
theorem to4_eq_iff {a b : Bytes} (ha : a.length = 4 ∨ a.length = 16)
    (hb : b.length = 4 ∨ b.length = 16) :
    (to4 a).getD a = (to4 b).getD b ↔ (fromSlice a).map unmap = (fromSlice b).map unmap := by
  rw [← fromSlice_to4 ha, ← fromSlice_to4 hb, fromSlice_inj (length_to4 ha) (length_to4 hb)]

theorem bitLen_eq {a b : Addr} (hfam : a.is4 = b.is4) : a.bitLen = b.bitLen := by
  cases a <;> cases b <;> simp_all [is4, bitLen]

theorem bitLen_pos (a : Addr) : 1 < a.bitLen := by
  cases a <;> simp [bitLen]

@[simp] theorem is4_withNat (a : Addr) (n : ℕ) : (a.withNat n).is4 = a.is4 := by
  cases a <;> rfl

@[simp] theorem bitLen_withNat (a : Addr) (n : ℕ) : (a.withNat n).bitLen = a.bitLen := by
  cases a <;> rfl

theorem toNat_withNat (a : Addr) {n : ℕ} (h : n < 2 ^ a.bitLen) : (a.withNat n).toNat = n := by
  cases a with
  | v4 a => exact Nat.mod_eq_of_lt h
  | v6 a => exact Nat.mod_eq_of_lt h

@[simp] theorem top_bitLen (a : Addr) : a.top a.bitLen = a.toNat := by
  simp [top]

end Addr

/-- A valid prefix. -/
structure Prefix where
  addr : Addr
  bits : ℕ
  bits_le : bits ≤ addr.bitLen
  deriving DecidableEq

namespace Prefix

def contains (p : Prefix) (a : Addr) : Prop := p.addr.is4 = a.is4 ∧ p.addr.top p.bits = a.top p.bits

instance (p : Prefix) (a : Addr) : Decidable (p.contains a) := by
  unfold contains; infer_instance

/-- The prefix with the bits of the address behind it cleared. -/
def masked (p : Prefix) : Prefix :=
  ⟨p.addr.withNat (p.addr.top p.bits * 2 ^ (p.addr.bitLen - p.bits)), p.bits, by
    rw [Addr.bitLen_withNat]; exact p.bits_le⟩

/-- The prefix of a single address. -/
def host (a : Addr) : Prefix := ⟨a, a.bitLen, le_rfl⟩

theorem eq_of_fields {p q : Prefix} (haddr : p.addr = q.addr) (hbits : p.bits = q.bits) : p = q := by
  obtain ⟨a, n, hn⟩ := p
  obtain ⟨b, m, hm⟩ := q
  obtain rfl : a = b := haddr
  obtain rfl : n = m := hbits
  rfl

theorem toNat_masked (p : Prefix) :
    p.masked.addr.toNat = p.addr.top p.bits * 2 ^ (p.addr.bitLen - p.bits) := by
  refine Addr.toNat_withNat _ ?_
  exact (Nat.div_mul_le_self _ _).trans_lt p.addr.toNat_lt

theorem top_masked (p : Prefix) : p.masked.addr.top p.bits = p.addr.top p.bits := by
  have hlen : p.masked.addr.bitLen = p.addr.bitLen := Addr.bitLen_withNat _ _
  rw [Addr.top, toNat_masked, hlen, Nat.mul_div_cancel _ (Nat.two_pow_pos _)]

@[simp] theorem masked_masked (p : Prefix) : p.masked.masked = p.masked := by
  refine eq_of_fields (Addr.eq_of_toNat (Addr.is4_withNat _ _) ?_) rfl
  have hlen : p.masked.addr.bitLen = p.addr.bitLen := Addr.bitLen_withNat _ _
  have hbits : p.masked.bits = p.bits := rfl
  rw [toNat_masked, toNat_masked, hlen, hbits, top_masked]

@[simp] theorem masked_host (a : Addr) : (host a).masked = host a := by
  refine eq_of_fields (Addr.eq_of_toNat (Addr.is4_withNat _ _) ?_) rfl
  rw [toNat_masked]
  simp [host]

/-- **Masked prefixes of one length that contain a common address are equal.** -/
theorem eq_of_contains {p q : Prefix} (hp : p.masked = p) (hq : q.masked = q) {a : Addr}
    (hpa : p.contains a) (hqa : q.contains a) (hbits : p.bits = q.bits) : p = q := by
  obtain ⟨hpfam, hptop⟩ := hpa
  obtain ⟨hqfam, hqtop⟩ := hqa
  have hfam : p.addr.is4 = q.addr.is4 := hpfam.trans hqfam.symm
  have hpn := congrArg (fun r : Prefix => r.addr.toNat) hp
  have hqn := congrArg (fun r : Prefix => r.addr.toNat) hq
  simp only [toNat_masked] at hpn hqn
  refine eq_of_fields (Addr.eq_of_toNat hfam ?_) hbits
  rw [← hpn, ← hqn, hptop, hqtop, hbits, Addr.bitLen_eq hfam]

@[simp] theorem contains_host (a b : Addr) : (host a).contains b ↔ a = b := by
  constructor
  · rintro ⟨hfam, htop⟩
    refine Addr.eq_of_toNat hfam ?_
    have hlen : (host a).bits = b.bitLen := Addr.bitLen_eq hfam
    rw [hlen, Addr.top_bitLen, ← Addr.bitLen_eq hfam] at htop
    exact (Addr.top_bitLen a).symm.trans htop
  · rintro rfl
    exact ⟨rfl, rfl⟩

end Prefix

end Netip
