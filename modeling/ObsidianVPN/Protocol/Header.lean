import ObsidianVPN.Lib.Bytes
import ObsidianVPN.Lib.GoString

/-!
# Packet types, header ranges and padding sizes

A packet announces its type by a random number from the range that the header configuration
reserves for the type, and hides its length behind random padding. Random draws are arguments.

* `HeaderRange.pick`, `typeIDToPacketType`: choosing and reading a type id;
  **`HeaderConfig.Decodable.roundTrip`**: with non-empty disjoint ranges every choice reads back;
* `calculateBucketPaddingWithTrailer`, `fastRandomPaddingInplace`: how much padding a packet gets;
  `SizeDrawn`: when they do; `sizeDrawn_of_nonneg`: non-negative bounds give a size.

A Go panic is an error that starts with `panic:`.
-/

namespace ObsidianVPN.Protocol

open ByteStr GoString

/-- The five packet types. -/
inductive PacketType where
  | data
  | keepalive
  | noise
  | handshake
  | close
  deriving DecidableEq, Repr

instance : Nontrivial PacketType := ⟨.data, .close, by decide⟩

/-! ## Header ranges -/

structure HeaderRange where
  min : UInt32
  max : UInt32
  deriving DecidableEq, Repr

/-- `Pick`; the draw is reduced modulo the size of the range, and the full range overflows. -/
def HeaderRange.pick (h : HeaderRange) (draw : ℕ) : Except String UInt32 :=
  if h.max ≤ h.min then .ok h.min
  else
    let n := h.max - h.min + 1
    if n = 0 then .error "panic: invalid argument to Uint32N"
    else .ok (h.min + UInt32.ofNat (draw % n.toNat))

def HeaderRange.contains (h : HeaderRange) (v : UInt32) : Bool := decide (h.min ≤ v ∧ v ≤ h.max)

structure HeaderConfig where
  data : HeaderRange
  keepalive : HeaderRange
  noise : HeaderRange
  handshake : HeaderRange
  close : HeaderRange
  deriving DecidableEq, Repr

def defaultHeaderConfig : HeaderConfig where
  data := ⟨0x10000000, 0x1FFFFFFF⟩
  keepalive := ⟨0x20000000, 0x2FFFFFFF⟩
  noise := ⟨0x30000000, 0x3FFFFFFF⟩
  handshake := ⟨0x40000000, 0x4FFFFFFF⟩
  close := ⟨0x50000000, 0x5FFFFFFF⟩

namespace HeaderConfig

variable (hc : HeaderConfig)

def typeIDToPacketType (id : UInt32) : Except String PacketType :=
  if hc.data.contains id then .ok .data
  else if hc.keepalive.contains id then .ok .keepalive
  else if hc.noise.contains id then .ok .noise
  else if hc.handshake.contains id then .ok .handshake
  else if hc.close.contains id then .ok .close
  else .error s!"unknown type-id: 0x{formatHex 8 id.toNat}"

def rangeFor : PacketType → HeaderRange
  | .data => hc.data
  | .keepalive => hc.keepalive
  | .noise => hc.noise
  | .handshake => hc.handshake
  | .close => hc.close

/-- The ranges are non-empty and pairwise disjoint. -/
structure Decodable : Prop where
  nonempty : ∀ pt, (hc.rangeFor pt).min ≤ (hc.rangeFor pt).max
  disjoint : ∀ pt pt' v, (hc.rangeFor pt).contains v = true → (hc.rangeFor pt').contains v = true →
    pt = pt'

end HeaderConfig

theorem HeaderRange.contains_pick {h : HeaderRange} (hne : h.min ≤ h.max) {draw : ℕ} {v : UInt32}
    (hv : h.pick draw = .ok v) : h.contains v = true := by
  have hle : h.min.toNat ≤ h.max.toNat := UInt32.le_iff_toNat_le.mp hne
  unfold HeaderRange.pick at hv
  split at hv
  · cases hv
    simp [HeaderRange.contains, hne]
  · simp only at hv
    split at hv
    · exact absurd hv (by simp)
    · rename_i hn
      cases hv
      have hmax := h.max.toNat_lt
      have hsub : (h.max - h.min).toNat = h.max.toNat - h.min.toNat := UInt32.toNat_sub_of_le _ _ hne
      -- the size of the range does not wrap, so the offset stays below it
      have hsize : (h.max - h.min + 1).toNat = h.max.toNat - h.min.toNat + 1 := by
        rw [UInt32.toNat_add, hsub]
        refine Nat.mod_eq_of_lt (lt_of_le_of_ne (by simp; omega) fun heq => hn ?_)
        apply UInt32.toNat_inj.mp
        rw [UInt32.toNat_add, hsub, heq]
        rfl
      have hoff : draw % (h.max - h.min + 1).toNat < h.max.toNat - h.min.toNat + 1 := by
        rw [hsize]; exact Nat.mod_lt _ (Nat.succ_pos _)
      have hadd : (h.min + UInt32.ofNat (draw % (h.max - h.min + 1).toNat)).toNat =
          h.min.toNat + draw % (h.max - h.min + 1).toNat := by
        rw [UInt32.toNat_add, UInt32.toNat_ofNat_of_lt' (by simp only [UInt32.size]; omega)]
        exact Nat.mod_eq_of_lt (by omega)
      simp only [HeaderRange.contains, decide_eq_true_eq, UInt32.le_iff_toNat_le, hadd]
      omega

/-- The range of all type ids. -/
def HeaderRange.Full (h : HeaderRange) : Prop := h.min.toNat = 0 ∧ h.max.toNat = 2 ^ 32 - 1

/-- Only the full range makes `Pick` panic. -/
theorem HeaderRange.pick_isOk_iff (h : HeaderRange) (draw : ℕ) :
    (∃ v, h.pick draw = .ok v) ↔ ¬h.Full := by
  have hmax := h.max.toNat_lt
  unfold HeaderRange.pick HeaderRange.Full
  split
  · rename_i hle
    have hle := UInt32.le_iff_toNat_le.mp hle
    exact iff_of_true ⟨_, rfl⟩ (by omega)
  · rename_i hlt
    have hle : h.min ≤ h.max := UInt32.le_of_lt (UInt32.not_le.mp hlt)
    have hne := UInt32.le_iff_toNat_le.mp hle
    have hn : h.max - h.min + 1 = 0 ↔ h.min.toNat = 0 ∧ h.max.toNat = 2 ^ 32 - 1 := by
      rw [← UInt32.toNat_inj, UInt32.toNat_add, UInt32.toNat_sub_of_le _ _ hle, UInt32.toNat_one,
        UInt32.toNat_zero]
      omega
    dsimp only
    rw [← hn]
    split
    · rename_i hfull
      exact iff_of_false (by simp) (not_not_intro hfull)
    · rename_i hfull
      exact iff_of_true ⟨_, rfl⟩ hfull

namespace HeaderConfig

variable {hc : HeaderConfig} {pt : PacketType} {v : UInt32}

theorem typeIDToPacketType_of_contains (hin : (hc.rangeFor pt).contains v = true)
    (hout : ∀ pt', pt' ≠ pt → (hc.rangeFor pt').contains v = false) :
    hc.typeIDToPacketType v = .ok pt := by
  have hd := hout .data
  have hk := hout .keepalive
  have hn := hout .noise
  have hh := hout .handshake
  simp only [rangeFor] at hd hk hn hh
  cases pt <;> simp_all [typeIDToPacketType, rangeFor]

/-- No range is the full one, because it would meet the others: `Pick` does not panic. -/
theorem Decodable.pick_ok (h : hc.Decodable) (pt : PacketType) (draw : ℕ) :
    ∃ v, (hc.rangeFor pt).pick draw = .ok v := by
  refine (HeaderRange.pick_isOk_iff _ draw).mpr ?_
  rintro ⟨hmin, hmax⟩
  have hall : ∀ v, (hc.rangeFor pt).contains v = true := fun v => by
    have := v.toNat_lt
    simp only [HeaderRange.contains, decide_eq_true_eq, UInt32.le_iff_toNat_le]
    omega
  obtain ⟨pt', hpt'⟩ := exists_ne pt
  exact hpt' (h.disjoint pt' pt (hc.rangeFor pt').min
    (by simp [HeaderRange.contains, h.nonempty pt']) (hall _))

/-- **A chosen type id reads back as the type it was chosen for.** -/
theorem Decodable.roundTrip (h : hc.Decodable) {draw : ℕ}
    (hv : (hc.rangeFor pt).pick draw = .ok v) : hc.typeIDToPacketType v = .ok pt := by
  have hin := HeaderRange.contains_pick (h.nonempty pt) hv
  refine typeIDToPacketType_of_contains hin fun pt' hne => ?_
  by_contra hc'
  exact hne (h.disjoint pt' pt v (by simpa using hc') hin)

end HeaderConfig

theorem defaultHeaderConfig_decodable : defaultHeaderConfig.Decodable where
  nonempty pt := by cases pt <;> decide
  disjoint pt pt' v h h' := by
    cases pt <;> cases pt' <;> first
      | rfl
      | simp only [HeaderConfig.rangeFor, defaultHeaderConfig, HeaderRange.contains,
          decide_eq_true_eq, UInt32.le_iff_toNat_le] at h h'
        exact absurd (h.1.trans h'.2) (by first | decide | exact absurd (h'.1.trans h.2) (by decide))

/-! ## Padding -/

structure PaddingConfig where
  dataMin : ℤ
  dataMax : ℤ
  noiseMin : ℤ
  noiseMax : ℤ
  keepaliveMin : ℤ
  keepaliveMax : ℤ
  useBucketPadding : Bool
  bucketMTU : ℤ
  maxTrailer : ℤ
  deriving DecidableEq, Repr

def defaultPaddingConfig : PaddingConfig where
  dataMin := 0
  dataMax := 32
  noiseMin := 16
  noiseMax := 128
  keepaliveMin := 8
  keepaliveMax := 64
  useBucketPadding := true
  bucketMTU := 1360
  maxTrailer := 32

/-- All sizes are non-negative Go integers. -/
def PaddingConfig.NonNegative (cfg : PaddingConfig) : Prop :=
  ∀ n ∈ [cfg.dataMin, cfg.dataMax, cfg.noiseMin, cfg.noiseMax, cfg.keepaliveMin, cfg.keepaliveMax,
    cfg.bucketMTU, cfg.maxTrailer], 0 ≤ n ∧ n < 2 ^ 63

/-- `rand.IntN`. -/
def intN (n : ℤ) (draw : ℕ) : Except String ℤ :=
  if n ≤ 0 then .error "panic: invalid argument to IntN" else .ok (draw % n)

/-- A size that is drawn between the bounds: neither the draw nor the slice of that size panics. -/
def SizeDrawn (min max : ℤ) (draw : ℕ) : Prop :=
  if max ≤ min then 0 ≤ min
  else 0 < wrap64 (max - min) ∧ 0 ≤ min + draw % wrap64 (max - min)

/-- The code that draws a size and makes a slice of it. -/
theorem sizeDrawn_iff {α : Type*} {k : ℤ → Except String α} (hk : ∀ n, (∃ b, k n = .ok b) ↔ 0 ≤ n)
    {min max : ℤ} {draw : ℕ} :
    (∃ b, (if max ≤ min then k min
      else match intN (wrap64 (max - min)) draw with
        | .error err => .error err
        | .ok n => k (min + n)) = .ok b) ↔ SizeDrawn min max draw := by
  unfold SizeDrawn
  split
  · exact hk min
  · unfold intN
    by_cases hn : wrap64 (max - min) ≤ 0
    · simp [hn, not_lt.mpr hn]
    · simp only [if_neg hn, not_le.mp hn, true_and]
      exact hk _

/-- The padding up to the next bucket, or up to the MTU above the largest one. -/
def bucketPad (payloadLen maxMTU : ℤ) : Option ℤ :=
  match ([64, 256, 512, 1024] : List ℤ).find? fun b => decide (payloadLen ≤ b) with
  | some b => some (b - payloadLen)
  | none => if maxMTU > 1024 ∧ payloadLen < maxMTU then some (maxMTU - payloadLen) else none

/-- `CalculateBucketPaddingWithTrailer`; the draw chooses the trailer. -/
def calculateBucketPaddingWithTrailer (payloadLen maxMTU maxTrailer : ℤ) (draw : ℕ) : ℤ :=
  if payloadLen ≤ 0 ∨ payloadLen ≥ maxMTU then 0
  else
    match bucketPad payloadLen maxMTU with
    | none => 0
    | some basePad =>
      let trailer := if maxTrailer ≥ 4 then (draw % (maxTrailer / 4 + 1)) * 4 else 0
      let pad := wrap64 (basePad + trailer)
      let pad := if wrap64 (payloadLen + pad) > maxMTU then maxMTU - payloadLen else pad
      let rem := (wrap64 (payloadLen + pad)).tmod 4
      let pad :=
        if rem ≠ 0 then
          let pad := wrap64 (pad + (4 - rem))
          if wrap64 (payloadLen + pad) > maxMTU ∧ maxMTU ≥ 4 then pad - 4 else pad
        else pad
      if pad < 0 then 0 else pad

theorem calculateBucketPaddingWithTrailer_nonneg (payloadLen maxMTU maxTrailer : ℤ) (draw : ℕ) :
    0 ≤ calculateBucketPaddingWithTrailer payloadLen maxMTU maxTrailer draw := by
  have hclamp : ∀ pad : ℤ, 0 ≤ if pad < 0 then 0 else pad := fun pad => by split <;> omega
  unfold calculateBucketPaddingWithTrailer
  split
  · exact le_refl (0 : ℤ)
  · cases bucketPad payloadLen maxMTU with
    | none => exact le_refl (0 : ℤ)
    | some basePad => exact hclamp _

/-- `FastRandomBytes(dst[:size])` with `size` cut down to the length of the destination: the number
of bytes filled. -/
def fillUpTo (dstLen : ℕ) (size : ℤ) : Except String ℕ :=
  if min size dstLen < 0 then .error "panic: slice bounds out of range"
  else .ok (min size dstLen).toNat

/-- `FastRandomPaddingInplace` on a destination of the given length: the number of bytes filled. -/
def fastRandomPaddingInplace (dstLen : ℕ) (min max : ℤ) (draw : ℕ) : Except String ℕ :=
  if max ≤ min then fillUpTo dstLen min
  else
    match intN (wrap64 (max - min)) draw with
    | .error err => .error err
    | .ok offset => fillUpTo dstLen (min + offset)

theorem fillUpTo_le {dstLen n : ℕ} {size : ℤ} (h : fillUpTo dstLen size = .ok n) : n ≤ dstLen := by
  unfold fillUpTo at h
  split at h
  · exact absurd h (by simp)
  · simp only [Except.ok.injEq] at h
    omega

theorem fillUpTo_isOk_iff (dstLen : ℕ) (size : ℤ) : (∃ n, fillUpTo dstLen size = .ok n) ↔ 0 ≤ size := by
  unfold fillUpTo
  by_cases hsize : size < 0
  · have hneg : min size dstLen < 0 := by omega
    simp [hneg, not_le.mpr hsize]
  · have hpos : ¬min size dstLen < 0 := by omega
    simp [hpos, not_lt.mp hsize]

theorem fastRandomPaddingInplace_le {dstLen : ℕ} {min max : ℤ} {draw n : ℕ}
    (h : fastRandomPaddingInplace dstLen min max draw = .ok n) : n ≤ dstLen := by
  unfold fastRandomPaddingInplace at h
  split at h
  · exact fillUpTo_le h
  · split at h
    · exact absurd h (by simp)
    · exact fillUpTo_le h

theorem fastRandomPaddingInplace_isOk_iff (dstLen : ℕ) {min max : ℤ} {draw : ℕ} :
    (∃ n, fastRandomPaddingInplace dstLen min max draw = .ok n) ↔ SizeDrawn min max draw :=
  sizeDrawn_iff (fillUpTo_isOk_iff dstLen)

/-- **Non-negative bounds give a size**, if their distance is an `int64`. -/
theorem sizeDrawn_of_nonneg {min max : ℤ} (hmin : 0 ≤ min) (hmax : max ≤ min ∨ max < 2 ^ 63)
    (draw : ℕ) : SizeDrawn min max draw := by
  unfold SizeDrawn
  split
  · exact hmin
  · rename_i hle
    have hwrap : wrap64 (max - min) = max - min := wrap64_of_bounds (by omega) (by omega)
    have hmod := Int.emod_nonneg (draw : ℤ) (by omega : max - min ≠ 0)
    rw [hwrap]
    exact ⟨by omega, by omega⟩

end ObsidianVPN.Protocol
