import ObsidianVPN.Server.Mss

/-!
# Fragmentation of IPv4 packets

A packet for a client that is longer than its tunnel takes and is not split as TCP is cut into IPv4
fragments by the server. The packet may be a fragment itself.

* `headerLen`, `totalLen`, `fragOffset`, `moreFragments`, `ipPayload`: the fields of a header;
* `fragmentIPv4`: the fragments that are emitted; `fragment_spec`: one of them;
* `Fragmented`: the fragments can be put together again;
* **`fragmentIPv4_correct_iff`**: they can exactly when every one of them starts within the range of
  the 13-bit offset field, and the maximal length is not negative.
-/

namespace ObsidianVPN.Server

open ByteStr Checksum Chunks

/-! ## The header -/

section Header

variable (pkt : Bytes)

def headerLen : ℕ := (byteAt pkt 0 &&& 0x0f).toNat * 4

def totalLen : ℕ := getBE (slice pkt 2 2)

/-- The offset of the payload, which the header holds in units of 8 bytes. -/
def fragOffset : ℕ := (getBE (slice pkt 6 2) &&& 0x1fff) * 8

def moreFragments : Bool := decide (getBE (slice pkt 6 2) &&& 0x2000 ≠ 0)

def ipPayload : Bytes := slice pkt (headerLen pkt) (totalLen pkt - headerLen pkt)

end Header

/-! ## The fragments -/

section Fragment

variable (pkt : Bytes) (per off : ℕ)

/-- The end of the fragment that starts at `off`. -/
def fragEnd : ℕ := min (off + per) (ipPayload pkt).length

/-- Offset and flags. The quotient is cut to 16 bits and not to the 13 of the field. -/
def fragField : ℕ :=
  let f := (fragOffset pkt + off) / 8 % 2 ^ 16
  if fragEnd pkt per off ≠ (ipPayload pkt).length ∨ moreFragments pkt then f ||| 0x2000 else f

/-- The packet that the loop of `fragmentIPv4` emits for the payload from `off` on. -/
def fragment : Bytes :=
  let ihl := headerLen pkt
  let frag := pkt.take ihl ++ slice (ipPayload pkt) off (fragEnd pkt per off - off)
  let h := patch (frag.take ihl) 2 (putBE 2 frag.length)
  let h := patch h 6 (putBE 2 (fragField pkt per off))
  setIPv4Checksum h ++ frag.drop ihl

end Fragment

/-- The loop of `fragmentIPv4`. -/
def fragmentLoop (pkt : Bytes) (per : ℕ) (hper : 0 < per) (off : ℕ) : List Bytes :=
  if off < (ipPayload pkt).length then
    fragment pkt per off :: fragmentLoop pkt per hper (off + per)
  else []
termination_by (ipPayload pkt).length - off

/-- The payload of a fragment that is not the last one. -/
def perFragment (pkt : Bytes) (maxLen : Int64) : Int64 :=
  (maxLen - Int64.ofNat (headerLen pkt)) &&& ~~~7

/-- What `fragmentIPv4` returns, and the packets it emits. -/
def fragmentIPv4 (pkt : Bytes) (maxLen : Int64) : Bool × List Bytes :=
  if pkt.length < 20 ∨ byteAt pkt 0 >>> 4 ≠ 4 then (false, [])
  else if headerLen pkt < 20 ∨ totalLen pkt < headerLen pkt ∨ totalLen pkt > pkt.length ∨
      totalLen pkt ≤ maxLen.toInt then (false, [])
  else
    let per := (perFragment pkt maxLen).toInt
    if h : per ≤ 0 then (false, [])
    else (true, fragmentLoop pkt per.toNat (by omega) 0)

/-! ## Reassembly -/

/-- `frag` is the fragment of the packet with the payload from `off` on. -/
structure Fragment (pkt : Bytes) (maxLen : ℤ) (off : ℕ) (last : Bool) (frag : Bytes) : Prop where
  length_le : frag.length ≤ maxLen
  totalLen_eq : totalLen frag = frag.length
  checksum : fold (wordSum (frag.take (headerLen frag))) = 65535
  offset : fragOffset frag = fragOffset pkt + off
  more : moreFragments frag = (!last || moreFragments pkt)
  others : ∀ j < headerLen pkt, ¬(2 ≤ j ∧ j < 4) → ¬(6 ≤ j ∧ j < 8) → ¬(10 ≤ j ∧ j < 12) →
    byteAt frag j = byteAt pkt j

/-- The fragments carry the payload of the packet one after another, and each says where its part
belongs and whether it is the last one. -/
structure Fragmented (pkt : Bytes) (maxLen : ℤ) (out : List Bytes) : Prop where
  payload : (out.map ipPayload).flatten = ipPayload pkt
  fragments : ∀ i frag, out[i]? = some frag →
    Fragment pkt maxLen ((out.take i).map ipPayload).flatten.length (decide (i + 1 = out.length)) frag

/-- Every fragment starts below 65536, and the maximal length is not a negative number. -/
def FragmentsFit (pkt : Bytes) (maxLen : Int64) : Prop :=
  ∀ off < (ipPayload pkt).length, (perFragment pkt maxLen).toInt.toNat ∣ off →
    0 ≤ maxLen.toInt ∧ fragOffset pkt + off < 65536

instance (pkt : Bytes) (maxLen : Int64) : Decidable (FragmentsFit pkt maxLen) :=
  inferInstanceAs (Decidable (∀ off < (ipPayload pkt).length, _ ∣ off → _ ∧ _))

/-! ## One fragment -/

theorem and_mask (n : ℕ) : n &&& 0x1fff = n % 2 ^ 13 := Nat.and_two_pow_sub_one_eq_mod n 13

theorem and_flag (n : ℕ) : decide (n &&& 0x2000 ≠ 0) = n.testBit 13 := by
  rw [show 0x2000 = 2 ^ 13 by norm_num, Nat.and_two_pow]
  cases n.testBit 13 <;> simp

/-- The offset field is not touched by the flag. -/
theorem or_flag_mod (n : ℕ) : (n ||| 0x2000) % 2 ^ 13 = n % 2 ^ 13 := by
  rw [Nat.or_mod_two_pow]
  exact Nat.or_zero _

theorem eight_dvd_fragOffset (pkt : Bytes) : 8 ∣ fragOffset pkt := Nat.dvd_mul_left 8 _

/-- The offset that is read back. -/
theorem fragField_offset (pkt : Bytes) (per : ℕ) {off : ℕ} (h8 : 8 ∣ off) :
    (fragField pkt per off % 65536 &&& 0x1fff) * 8 = (fragOffset pkt + off) % 65536 := by
  have hbase := eight_dvd_fragOffset pkt
  have hfield : fragField pkt per off % 2 ^ 13 = (fragOffset pkt + off) / 8 % 2 ^ 16 % 2 ^ 13 := by
    unfold fragField
    dsimp only
    split
    · exact or_flag_mod _
    · rfl
  rw [and_mask]
  omega

/-- The flag that is read back. -/
theorem fragField_more (pkt : Bytes) (per : ℕ) {off : ℕ} (hrange : fragOffset pkt + off < 65536) :
    decide (fragField pkt per off % 65536 &&& 0x2000 ≠ 0) =
      (decide (fragEnd pkt per off ≠ (ipPayload pkt).length) || moreFragments pkt) := by
  have hsmall : ((fragOffset pkt + off) / 8 % 2 ^ 16).testBit 13 = false :=
    Nat.testBit_lt_two_pow (by omega)
  have hmod : (fragField pkt per off % 2 ^ 16).testBit 13 = (fragField pkt per off).testBit 13 := by
    rw [Nat.testBit_mod_two_pow]
    simp
  rw [and_flag, show 65536 = 2 ^ 16 by norm_num, hmod]
  unfold fragField
  dsimp only
  split
  · rename_i hmore
    have hflag : Nat.testBit 0x2000 13 = true := by decide
    rw [Nat.testBit_or, hflag, Bool.or_true]
    simpa using hmore
  · rename_i hlast
    rw [hsmall]
    simpa using hlast

/-- The packet has the headers that `fragmentIPv4` checks for. -/
structure IPv4Header (pkt : Bytes) : Prop where
  headerLen_ge : 20 ≤ headerLen pkt
  headerLen_le : headerLen pkt ≤ totalLen pkt
  totalLen_le : totalLen pkt ≤ pkt.length

section Spec

variable {pkt : Bytes} (h : IPv4Header pkt)

include h

theorem length_ipPayload : (ipPayload pkt).length = totalLen pkt - headerLen pkt := by
  have := h.headerLen_le
  have := h.totalLen_le
  exact length_slice (by omega)

theorem length_take_headerLen : (pkt.take (headerLen pkt)).length = headerLen pkt := by
  have := h.headerLen_le
  have := h.totalLen_le
  rw [List.length_take]
  omega

variable {off : ℕ} (hoff : off < (ipPayload pkt).length) (per : ℕ)

include hoff

/-- **One fragment.** Its offset is right up to the range of the field, and so are its flags as long
as the offset is in this range. -/
theorem fragment_spec :
    (fragment pkt per off).length = headerLen pkt + (fragEnd pkt per off - off) ∧
    totalLen (fragment pkt per off) = (fragment pkt per off).length ∧
    fold (wordSum ((fragment pkt per off).take (headerLen pkt))) = 65535 ∧
    (8 ∣ off → fragOffset (fragment pkt per off) = (fragOffset pkt + off) % 65536) ∧
    (fragOffset pkt + off < 65536 → moreFragments (fragment pkt per off) =
      (decide (fragEnd pkt per off ≠ (ipPayload pkt).length) || moreFragments pkt)) ∧
    (fragment pkt per off).drop (headerLen pkt) = ((ipPayload pkt).drop off).take per ∧
    ∀ j < headerLen pkt, ¬(2 ≤ j ∧ j < 4) → ¬(6 ≤ j ∧ j < 8) → ¬(10 ≤ j ∧ j < 12) →
      byteAt (fragment pkt per off) j = byteAt pkt j := by
  have hge := h.headerLen_ge
  have hle := h.headerLen_le
  have hpay := length_ipPayload h
  have htotal : totalLen pkt < 65536 := getBE_slice_lt pkt 2 2
  have htake := length_take_headerLen h
  have hend : headerLen pkt + (fragEnd pkt per off - off) < 65536 := by
    unfold fragEnd
    omega
  have hslice : (slice (ipPayload pkt) off (fragEnd pkt per off - off)).length =
      fragEnd pkt per off - off := length_slice (by unfold fragEnd; omega)
  obtain ⟨hdr, hset, hlen, hL, hF, hfold, hothers⟩ := setIPv4Checksum_fields
    (show 20 ≤ (pkt.take (headerLen pkt)).length by omega) (by omega)
    (length_putBE 2 (headerLen pkt + (fragEnd pkt per off - off)))
    (length_putBE 2 (fragField pkt per off)) (show 4 ≤ 6 by norm_num) (by norm_num)
  have hhdr : hdr.length = headerLen pkt := hlen.trans htake
  have heq : fragment pkt per off =
      hdr ++ slice (ipPayload pkt) off (fragEnd pkt per off - off) := by
    simp only [fragment]
    rw [List.take_left' htake, List.drop_left' htake, List.length_append, htake, hslice, hset]
  have hlength : (fragment pkt per off).length = headerLen pkt + (fragEnd pkt per off - off) := by
    rw [heq, List.length_append, hhdr, hslice]
  have hfield : getBE (slice (fragment pkt per off) 6 2) = fragField pkt per off % 65536 := by
    rw [heq, slice_append_left _ _ (by omega), hF, getBE_putBE]
    norm_num
  refine ⟨hlength, ?_, ?_, ?_, ?_, ?_, fun j hj hL' hF' hc' => ?_⟩
  · rw [hlength, totalLen, heq, slice_append_left _ _ (by omega), hL, getBE_putBE_of_lt (by omega)]
  · rw [heq, List.take_left' hhdr]
    exact hfold
  · intro h8
    rw [fragOffset, hfield]
    exact fragField_offset pkt per h8
  · intro hrange
    rw [moreFragments, hfield]
    exact fragField_more pkt per hrange
  · rw [heq, List.drop_left' hhdr, slice, List.take_eq_take_iff, List.length_drop, fragEnd]
    omega
  · rw [heq, byteAt_append_left (by omega), hothers j (by omega) (by omega) (by omega),
      byteAt_take hj]

theorem headerLen_fragment : headerLen (fragment pkt per off) = headerLen pkt := by
  have hge := h.headerLen_ge
  have hothers := (fragment_spec h hoff per).2.2.2.2.2.2
  rw [headerLen, hothers 0 (by omega) (by omega) (by omega) (by omega), headerLen]

theorem ipPayload_fragment :
    ipPayload (fragment pkt per off) = ((ipPayload pkt).drop off).take per := by
  obtain ⟨-, htotal, -, -, -, hpayload, -⟩ := fragment_spec h hoff per
  rw [ipPayload, headerLen_fragment h hoff, htotal, slice, hpayload, List.take_of_length_le]
  rw [← hpayload, List.length_drop]

end Spec

/-! ## The loop -/

theorem fragmentLoop_eq (pkt : Bytes) {per : ℕ} (hper : 0 < per) (i off : ℕ) :
    fragmentLoop pkt per hper off =
      rounds (fun _ => fragment pkt per) (ipPayload pkt).length hper i off := by
  induction off using fragmentLoop.induct pkt per hper generalizing i with
  | case1 off hoff ih =>
    rw [fragmentLoop, rounds, if_pos hoff, if_pos hoff, ih (i + 1)]
  | case2 off hoff => rw [fragmentLoop, rounds, if_neg hoff, if_neg hoff]

/-- **The fragments of the loop** can be put together again exactly when they start in the range of
the offset field. -/
theorem fragmented_fragmentLoop_iff {pkt : Bytes} (h : IPv4Header pkt) {per : ℕ} (hper : 0 < per)
    (h8 : 8 ∣ per) {maxLen : ℤ} (hmax : 0 ≤ maxLen → headerLen pkt + per ≤ maxLen) :
    Fragmented pkt maxLen (fragmentLoop pkt per hper 0) ↔
      ∀ off < (ipPayload pkt).length, per ∣ off → 0 ≤ maxLen ∧ fragOffset pkt + off < 65536 := by
  rw [fragmentLoop_eq pkt hper 0]
  obtain ⟨hwhole, hrounds⟩ := rounds_cut (f := fun _ => fragment pkt per) hper
    (fun _ off hoff => ipPayload_fragment h hoff per)
  constructor
  · rintro ⟨-, hfrags⟩ off hoff hdvd
    have hround := getElem?_rounds_of_dvd (fun _ => fragment pkt per) hper hoff hdvd
    obtain ⟨-, -, hsum, -⟩ := hrounds _ _ hround
    have hfrag := hfrags _ _ hround
    have hoffset := hfrag.offset
    rw [hsum, Nat.div_mul_cancel hdvd, (fragment_spec h hoff per).2.2.2.1 (h8.trans hdvd)] at hoffset
    have hlen := hfrag.length_le
    omega
  · intro hfit
    refine ⟨hwhole, fun i frag hi => ?_⟩
    obtain ⟨hoff, rfl, hsum, hlast⟩ := hrounds i frag hi
    obtain ⟨hpos, hrange⟩ := hfit _ hoff (Nat.dvd_mul_left per i)
    obtain ⟨hlen, htotal, hcheck, hoffset, hmore, -, hothers⟩ := fragment_spec h hoff per
    have hmax := hmax hpos
    rw [hsum, decide_eq_decide.mpr hlast]
    refine ⟨?_, htotal, ?_, ?_, ?_, hothers⟩
    · rw [hlen, fragEnd]
      omega
    · rw [headerLen_fragment h hoff]
      exact hcheck
    · rw [hoffset (h8.trans (Nat.dvd_mul_left per i)), Nat.mod_eq_of_lt hrange]
    · rw [hmore hrange, ← decide_not, fragEnd]
      refine congrArg (· || _) (decide_eq_decide.mpr ?_)
      omega

/-- Clearing the low three bits rounds down to a multiple of 8. -/
theorem and_not_seven {n : ℕ} (h : n < 2 ^ 64) : n &&& (2 ^ 64 - 8) = n / 8 * 8 := by
  have hdiv : (n &&& (2 ^ 64 - 8)) / 2 ^ 3 = n / 2 ^ 3 := by
    rw [Nat.and_div_two_pow, show (2 ^ 64 - 8) / 2 ^ 3 = 2 ^ 61 - 1 by norm_num,
      Nat.and_two_pow_sub_one_eq_mod]
    omega
  have hmod : (n &&& (2 ^ 64 - 8)) % 2 ^ 3 = 0 := by
    rw [Nat.and_mod_two_pow, show (2 ^ 64 - 8) % 2 ^ 3 = 0 by norm_num, Nat.and_zero]
  omega

theorem toInt_and_not_seven {x : Int64} (hpos : 0 < (x &&& ~~~7).toInt) :
    (x &&& ~~~7).toInt ≤ x.toInt ∧ 8 ∣ (x &&& ~~~7).toInt.toNat := by
  have hand : (x &&& ~~~7).toBitVec.toNat = x.toBitVec.toNat / 8 * 8 := by
    rw [Int64.toBitVec_and, BitVec.toNat_and]
    exact and_not_seven x.toBitVec.isLt
  have hlt := x.toBitVec.isLt
  change 0 < (x &&& ~~~7).toBitVec.toInt at hpos
  change (x &&& ~~~7).toBitVec.toInt ≤ x.toBitVec.toInt ∧ 8 ∣ (x &&& ~~~7).toBitVec.toInt.toNat
  rw [BitVec.toInt_eq_toNat_cond, hand] at hpos
  rw [BitVec.toInt_eq_toNat_cond, BitVec.toInt_eq_toNat_cond, hand]
  split at hpos <;> split <;> omega

/-- The difference does not wrap around unless the maximal length is negative. -/
theorem headerLen_add_perFragment_le {pkt : Bytes} {maxLen : Int64} (hlt : headerLen pkt < 65536)
    (hpos : 0 < (perFragment pkt maxLen).toInt) (hmax : 0 ≤ maxLen.toInt) :
    headerLen pkt + (perFragment pkt maxLen).toInt.toNat ≤ maxLen.toInt := by
  have hle := (toInt_and_not_seven hpos).1
  have hsub := Int64.toInt_sub maxLen (Int64.ofNat (headerLen pkt))
  rw [Int64.toInt_ofNat_of_lt (by omega)] at hsub
  have hhigh := maxLen.toInt_lt
  rw [Int.bmod_def] at hsub
  unfold perFragment at hpos ⊢
  split at hsub <;> omega

/-- **`fragmentIPv4` emits fragments that can be put together again** exactly when all of them start
below 65536 (and the maximal length is not negative); if it returns `false`, it has emitted nothing. -/
theorem fragmentIPv4_correct_iff (pkt : Bytes) (maxLen : Int64) :
    ((fragmentIPv4 pkt maxLen).1 = true →
      (Fragmented pkt maxLen.toInt (fragmentIPv4 pkt maxLen).2 ↔ FragmentsFit pkt maxLen)) ∧
    ((fragmentIPv4 pkt maxLen).1 = false → (fragmentIPv4 pkt maxLen).2 = []) := by
  unfold fragmentIPv4
  split
  · exact ⟨by simp, fun _ => rfl⟩
  · split
    · exact ⟨by simp, fun _ => rfl⟩
    · rename_i hchecks
      dsimp only
      split
      · exact ⟨by simp, fun _ => rfl⟩
      · rename_i hpos
        obtain ⟨hge, hle, htotal, -⟩ : 20 ≤ headerLen pkt ∧ headerLen pkt ≤ totalLen pkt ∧
            totalLen pkt ≤ pkt.length ∧ maxLen.toInt < totalLen pkt := by
          simpa only [not_or, not_lt, not_le] using hchecks
        have hlt : totalLen pkt < 65536 := getBE_slice_lt pkt 2 2
        refine ⟨fun _ => ?_, by simp⟩
        exact fragmented_fragmentLoop_iff ⟨hge, hle, htotal⟩ _
          (toInt_and_not_seven (not_le.mp hpos)).2
          (headerLen_add_perFragment_le (by omega) (not_le.mp hpos))

/-- A fragment without a further one, with 24 bytes of payload at the offset `8 * n`. -/
def sampleFragment (n : ℕ) : Bytes :=
  [0x45, 0, 0, 44, 0, 1] ++ putBE 2 n ++ [64, 17, 0, 0, 10, 0, 0, 1, 10, 0, 0, 2] ++
    (List.range 24).map UInt8.ofNat

theorem fragmentIPv4_sampleFragment : (fragmentIPv4 (sampleFragment 8189) 28).2.length = 3 ∧
    Fragmented (sampleFragment 8189) 28 (fragmentIPv4 (sampleFragment 8189) 28).2 :=
  ⟨by decide +kernel,
    ((fragmentIPv4_correct_iff (sampleFragment 8189) 28).1 (by decide +kernel)).mpr
      (by decide +kernel)⟩

/-- The third part starts at 65536; it is sent as a first fragment. -/
theorem fragmentIPv4_offset_overflow : (fragmentIPv4 (sampleFragment 8190) 28).1 = true ∧
    ((fragmentIPv4 (sampleFragment 8190) 28).2.map fragOffset) = [65520, 65528, 0] ∧
    ((fragmentIPv4 (sampleFragment 8190) 28).2.map moreFragments) = [true, true, true] ∧
    ¬Fragmented (sampleFragment 8190) 28 (fragmentIPv4 (sampleFragment 8190) 28).2 := by
  have hoffsets : (fragmentIPv4 (sampleFragment 8190) 28).2.map fragOffset = [65520, 65528, 0] := by
    decide +kernel
  refine ⟨by decide +kernel, hoffsets, by decide +kernel, fun h => ?_⟩
  obtain ⟨frag, hfrag, hzero⟩ : ∃ frag, (fragmentIPv4 (sampleFragment 8190) 28).2[2]? = some frag ∧
      fragOffset frag = 0 := by
    rw [← Option.map_eq_some_iff, ← List.getElem?_map, hoffsets]
    rfl
  have hbase : fragOffset (sampleFragment 8190) = 65520 := by decide +kernel
  have := (h.fragments 2 frag hfrag).offset
  omega

end ObsidianVPN.Server
