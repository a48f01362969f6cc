import ObsidianVPN.Protocol.RoundTrip

/-!
# Bucket padding

Data packets are padded to the next of a few sizes, so that their length says little about the
payload.

* `SmallestBound`, `SameBucket`: the buckets; `alignDown`: the rounding to four bytes;
* `payloadLen_add_pad`: the size that the padding calculation aims at;
* **`calculateBucketPaddingWithTrailer_spec`**: the padding stays below the MTU, is aligned where it
  can be, and reaches the bucket;
* `Call.length_run`: the length of a frame;
* **`frame_length_eq_iff`**: the two payloads of a bucket whose frames have the same length. The
  padding of a frame is at most 255 bytes, so a large bucket does not hide its payloads.
-/

namespace ObsidianVPN.Protocol

open ByteStr

/-! ## Buckets -/

def bucketBounds (maxMTU : ℤ) : List ℤ :=
  [64, 256, 512, 1024] ++ if maxMTU > 1024 then [maxMTU] else []

/-- The bound is the smallest one that is not below the payload. -/
structure SmallestBound (payloadLen maxMTU b : ℤ) : Prop where
  mem : b ∈ bucketBounds maxMTU
  le : payloadLen ≤ b
  least : ∀ b' ∈ bucketBounds maxMTU, payloadLen ≤ b' → b ≤ b'

/-- No bound lies between the two payloads. -/
def SameBucket (maxMTU len₁ len₂ : ℤ) : Prop :=
  ∀ b ∈ [64, 256, 512, 1024, maxMTU], len₁ ≤ b ↔ len₂ ≤ b

/-- The largest multiple of four that is not above `n`. -/
def alignDown (n : ℤ) : ℤ := n - n % 4

/-- The trailer that the draw gives: a multiple of four. -/
def trailerOf (maxTrailer : ℤ) (draw : ℕ) : ℤ :=
  if maxTrailer ≥ 4 then (draw % (maxTrailer / 4 + 1)) * 4 else 0

theorem trailerOf_spec (maxTrailer : ℤ) (draw : ℕ) :
    trailerOf maxTrailer draw % 4 = 0 ∧ 0 ≤ trailerOf maxTrailer draw ∧
      trailerOf maxTrailer draw ≤ max maxTrailer 0 := by
  unfold trailerOf
  split
  · have hpos : 0 < maxTrailer / 4 + 1 := by omega
    have hnonneg := Int.emod_nonneg (draw : ℤ) hpos.ne'
    have hlt := Int.emod_lt_of_pos (draw : ℤ) hpos
    omega
  · omega

theorem mem_bucketBounds {maxMTU b : ℤ} :
    b ∈ bucketBounds maxMTU ↔
      b ∈ ([64, 256, 512, 1024] : List ℤ) ∨ maxMTU > 1024 ∧ b = maxMTU := by
  unfold bucketBounds
  by_cases h : maxMTU > 1024 <;> simp [h, or_assoc]

theorem SmallestBound.aligned {payloadLen maxMTU b : ℤ} (h : SmallestBound payloadLen maxMTU b) :
    b % 4 = 0 ∨ b = maxMTU := by
  rcases mem_bucketBounds.1 h.mem with hmem | ⟨-, hmem⟩
  · simp only [List.mem_cons, List.not_mem_nil, or_false] at hmem
    omega
  · exact .inr hmem

/-- The calculation pads to the smallest bound. -/
theorem exists_smallestBound {payloadLen maxMTU : ℤ} (h : payloadLen < maxMTU) :
    ∃ b, SmallestBound payloadLen maxMTU b ∧
      bucketPad payloadLen maxMTU = some (b - payloadLen) := by
  unfold bucketPad
  cases hfind : ([64, 256, 512, 1024] : List ℤ).find? fun b => decide (payloadLen ≤ b) with
  | some b =>
    -- the buckets before the first one that holds the payload are too small, those behind it larger
    obtain ⟨hle, before, behind, hsplit, hsmall⟩ := List.find?_eq_some_iff_append.1 hfind
    have hsorted : (before ++ b :: behind).Pairwise (· ≤ ·) := hsplit ▸ by decide
    have hmem : b ∈ ([64, 256, 512, 1024] : List ℤ) := by rw [hsplit]; simp
    refine ⟨b, ⟨mem_bucketBounds.2 (.inl hmem), of_decide_eq_true hle, fun b' hb' hle' => ?_⟩, rfl⟩
    rcases mem_bucketBounds.1 hb' with hb' | ⟨hmtu, rfl⟩
    · rw [hsplit] at hb'
      rcases List.mem_append.1 hb' with hb' | hb'
      · exact absurd hle' (by simpa using hsmall b' hb')
      · rcases List.mem_cons.1 hb' with rfl | hb'
        · exact le_rfl
        · exact (List.pairwise_cons.1 (List.pairwise_append.1 hsorted).2.1).1 b' hb'
    · simp only [List.mem_cons, List.not_mem_nil, or_false] at hmem
      omega
  | none =>
    have hlarge := List.find?_eq_none.1 hfind
    simp only [decide_eq_true_eq, List.forall_mem_cons] at hlarge
    have hmtu : maxMTU > 1024 := by omega
    refine ⟨maxMTU, ⟨mem_bucketBounds.2 (.inr ⟨hmtu, rfl⟩), h.le, fun b' hb' hle' => ?_⟩,
      by simp [hmtu, h]⟩
    rcases mem_bucketBounds.1 hb' with hb' | ⟨-, rfl⟩
    · simp only [List.mem_cons, List.not_mem_nil, or_false] at hb'
      omega
    · exact le_rfl

/-! ## The padded size -/

/-- The padding cut off at the MTU. -/
def cutPad (payloadLen maxMTU pad : ℤ) : ℤ :=
  if wrap64 (payloadLen + pad) > maxMTU then maxMTU - payloadLen else pad

/-- The padding after its total is rounded to four bytes. -/
def roundPad (payloadLen maxMTU pad : ℤ) : ℤ :=
  let rem := (wrap64 (payloadLen + pad)).tmod 4
  let pad :=
    if rem ≠ 0 then
      let pad := wrap64 (pad + (4 - rem))
      if wrap64 (payloadLen + pad) > maxMTU ∧ maxMTU ≥ 4 then pad - 4 else pad
    else pad
  if pad < 0 then 0 else pad

theorem calculateBucketPaddingWithTrailer_eq {payloadLen maxMTU basePad : ℤ} (maxTrailer : ℤ)
    (draw : ℕ) (hpos : 0 < payloadLen) (hlt : payloadLen < maxMTU)
    (hpad : bucketPad payloadLen maxMTU = some basePad) :
    calculateBucketPaddingWithTrailer payloadLen maxMTU maxTrailer draw =
      roundPad payloadLen maxMTU
        (cutPad payloadLen maxMTU (wrap64 (basePad + trailerOf maxTrailer draw))) := by
  unfold calculateBucketPaddingWithTrailer
  rw [if_neg (by omega), hpad]
  rfl

theorem payloadLen_add_cutPad {payloadLen pad : ℤ} (maxMTU : ℤ) (hpos : 0 < payloadLen) (hpad : 0 ≤ pad)
    (hsum : payloadLen + pad < 2 ^ 63) :
    payloadLen + cutPad payloadLen maxMTU pad = min (payloadLen + pad) maxMTU := by
  unfold cutPad
  rw [wrap64_of_bounds (by omega) hsum]
  split <;> omega

/-- A total that is not aligned is rounded down, if that is possible, or up. -/
theorem payloadLen_add_roundPad {payloadLen pad : ℤ} (maxMTU : ℤ) (hpos : 0 < payloadLen)
    (hpad : 0 ≤ pad) (hsum : payloadLen + pad + 4 < 2 ^ 63) :
    payloadLen + roundPad payloadLen maxMTU pad =
      if (payloadLen + pad) % 4 = 0 then payloadLen + pad
      else if alignDown (payloadLen + pad) + 4 > maxMTU ∧ maxMTU ≥ 4 then
        max payloadLen (alignDown (payloadLen + pad))
      else alignDown (payloadLen + pad) + 4 := by
  have hrem : (wrap64 (payloadLen + pad)).tmod 4 = (payloadLen + pad) % 4 := by
    rw [wrap64_of_bounds (by omega) (by omega), Int.tmod_eq_emod_of_nonneg (by omega)]
  have hup : wrap64 (pad + (4 - (payloadLen + pad) % 4)) = pad + (4 - (payloadLen + pad) % 4) :=
    wrap64_of_bounds (by omega) (by omega)
  have hsize : wrap64 (payloadLen + (pad + (4 - (payloadLen + pad) % 4))) =
      payloadLen + (pad + (4 - (payloadLen + pad) % 4)) := wrap64_of_bounds (by omega) (by omega)
  unfold roundPad alignDown
  simp only [hrem, hup, hsize]
  split_ifs <;> omega

/-- **The size that a payload is padded to**: the bound and the trailer, cut off at the MTU and
rounded down to four bytes, unless that is below the payload. -/
theorem payloadLen_add_pad {payloadLen maxMTU b : ℤ} (maxTrailer : ℤ) (draw : ℕ)
    (hpos : 0 < payloadLen) (hlt : payloadLen < maxMTU) (h4 : 4 ≤ maxMTU)
    (hb : SmallestBound payloadLen maxMTU b)
    (hpad : bucketPad payloadLen maxMTU = some (b - payloadLen))
    (hsum : b + trailerOf maxTrailer draw < 2 ^ 63)
    (hmin : min (b + trailerOf maxTrailer draw) maxMTU + 4 < 2 ^ 63) :
    payloadLen + calculateBucketPaddingWithTrailer payloadLen maxMTU maxTrailer draw =
      max payloadLen (alignDown (min (b + trailerOf maxTrailer draw) maxMTU)) := by
  obtain ⟨htr4, htr0, -⟩ := trailerOf_spec maxTrailer draw
  have haligned := hb.aligned
  have hle := hb.le
  rw [calculateBucketPaddingWithTrailer_eq maxTrailer draw hpos hlt hpad,
    wrap64_of_bounds (by omega) (by omega)]
  have hcut := payloadLen_add_cutPad maxMTU hpos
    (by omega : 0 ≤ b - payloadLen + trailerOf maxTrailer draw) (by omega)
  rw [show payloadLen + (b - payloadLen + trailerOf maxTrailer draw) =
    b + trailerOf maxTrailer draw by omega] at hcut
  rw [payloadLen_add_roundPad maxMTU hpos (by omega) (by omega), hcut]
  -- only the MTU itself can be out of line, and it cannot be rounded up
  unfold alignDown
  split_ifs <;> omega

/-- **The padding calculation**: never negative, never above the MTU, aligned to four bytes if the
MTU leaves room for that, and at least up to the bucket. -/
theorem calculateBucketPaddingWithTrailer_spec (payloadLen maxMTU maxTrailer : ℤ) (draw : ℕ)
    (h4 : 4 ≤ maxMTU) (hmtu : maxMTU < 2 ^ 31) (htrailer : maxTrailer < 2 ^ 31)
    (hpos : 0 < payloadLen) (hlt : payloadLen < maxMTU) :
    0 ≤ calculateBucketPaddingWithTrailer payloadLen maxMTU maxTrailer draw ∧
    payloadLen + calculateBucketPaddingWithTrailer payloadLen maxMTU maxTrailer draw ≤ maxMTU ∧
    ((∃ m, 4 ∣ m ∧ payloadLen ≤ m ∧ m ≤ maxMTU) →
      4 ∣ payloadLen + calculateBucketPaddingWithTrailer payloadLen maxMTU maxTrailer draw) ∧
    ∃ b, SmallestBound payloadLen maxMTU b ∧ min b (maxMTU - 3) ≤
      payloadLen + calculateBucketPaddingWithTrailer payloadLen maxMTU maxTrailer draw := by
  obtain ⟨b, hb, hpad⟩ := exists_smallestBound hlt
  obtain ⟨htr4, htr0, htr⟩ := trailerOf_spec maxTrailer draw
  have haligned := hb.aligned
  have hle := hb.le
  have hbmax : b < 2 ^ 31 := by
    rcases mem_bucketBounds.1 hb.mem with hmem | ⟨-, rfl⟩
    · simp only [List.mem_cons, List.not_mem_nil, or_false] at hmem
      omega
    · exact hmtu
  have hsize := payloadLen_add_pad maxTrailer draw hpos hlt h4 hb hpad (by omega) (by omega)
  refine ⟨calculateBucketPaddingWithTrailer_nonneg _ _ _ _, ?_, ?_, b, hb, ?_⟩ <;> rw [hsize] <;>
    unfold alignDown
  · omega
  · rintro ⟨m, hm, hle, hmle⟩
    omega
  · omega

/-- Two bytes below an MTU that is out of line, where rounding would leave a negative padding. -/
theorem padding_below_odd_mtu :
    ¬(∃ m : ℤ, 4 ∣ m ∧ 1357 ≤ m ∧ m ≤ 1359) ∧
    0 ≤ calculateBucketPaddingWithTrailer 1357 1359 32 5 ∧
    1357 + calculateBucketPaddingWithTrailer 1357 1359 32 5 ≤ 1359 ∧
    calculateBucketPaddingWithTrailer 1357 1359 32 5 = 0 := by
  obtain ⟨hnonneg, hle, -, -⟩ := calculateBucketPaddingWithTrailer_spec 1357 1359 32 5 (by decide)
    (by decide) (by decide) (by decide) (by decide)
  exact ⟨by rintro ⟨m, h4, hlo, hhi⟩; omega, hnonneg, hle, by decide⟩

/-! ## The length of a frame -/

section Frames

variable {P : Primitives}

def Call.draws : Call → Draws
  | .frame _ _ r => r
  | .withBuffer _ _ _ r => r

theorem length_of_encode (hP : P.AEADLawful) {dstLen : ℕ} {c c' : Cipher Bytes}
    {headerKey : Option Bytes} {hc : HeaderConfig} {ptype : PacketType} {payload pkt : Bytes}
    {padMin padMax : ℤ} {r : Draws}
    (h : encodePacketWithHeaderProtectionBuffer P dstLen c headerKey hc ptype payload padMin padMax
      r = (.ok pkt, c')) :
    payload.length ≤ maxPayload ∧ ∃ padLen, padLength padMin padMax r.pad = .ok padLen ∧
      pkt.length = 24 + payload.length + padLen := by
  unfold encodePacketWithHeaderProtectionBuffer at h
  split at h
  · exact absurd h (by simp)
  · rename_i hlong
    cases hpad : padLength padMin padMax r.pad with
    | error err => exact absurd h (by simp [hpad])
    | ok padLen =>
      simp only [hpad] at h
      split at h
      · exact absurd h (by simp)
      · cases hid : (hc.rangeFor ptype).pick r.typeID with
        | error err => exact absurd h (by simp [hid])
        | ok typeID =>
          have hsealed : (c.encrypt P.suite (payload ++ fill padLen r.padding)
              (packetAAD typeID payload.length padLen)).1.length =
              payload.length + padLen + tagSize := by
            simp [Cipher.encrypt, Primitives.suite, hP.length_aeadSeal]
          obtain ⟨header, hmask, hheader, -⟩ := xorPacketHeader_ok (P := P)
            (packetAAD typeID payload.length padLen) headerKey
            ((c.encrypt P.suite (payload ++ fill padLen r.padding)
              (packetAAD typeID payload.length padLen)).1.take tagSize) (length_packetAAD _ _ _)
            (by rw [List.length_take, hsealed]; simp [tagSize])
          simp only [hid, hmask, Prod.mk.injEq, Except.ok.injEq] at h
          refine ⟨Nat.not_lt.1 hlong, padLen, rfl, ?_⟩
          rw [← h.1, List.length_append, hheader, hsealed]
          simp only [packetHeaderSize, tagSize]
          omega

/-- The number of padding bytes of a frame goes with the length of the frame. -/
theorem Call.length_run (hP : P.AEADLawful) {f : StreamFramer} {call : Call} {fr : Bytes}
    (h : (call.run P f).1 = .ok fr) :
    call.packet.payload.length ≤ maxPayload ∧ ∃ padLen,
      padLength (f.padBounds call.packet.type call.packet.payload call.draws).1
        (f.padBounds call.packet.type call.packet.payload call.draws).2 call.draws.pad =
          .ok padLen ∧
      fr.length = 28 + call.packet.payload.length + padLen := by
  have hfinish : ∀ encoded : Except String Bytes × Cipher Bytes,
      (f.finishFrame P encoded).1 = .ok fr →
      ∃ pkt c, encoded = (.ok pkt, c) ∧ fr.length = 4 + pkt.length := by
    rintro ⟨pkt | pkt, c⟩ hfr
    · exact absurd hfr (by simp [StreamFramer.finishFrame])
    · simp only [StreamFramer.finishFrame, Except.ok.injEq] at hfr
      exact ⟨pkt, c, rfl, by rw [← hfr]; simp⟩
  cases call with
  | frame ptype payload r =>
    obtain ⟨pkt, c, hpkt, hlen⟩ := hfinish _ h
    unfold encodePacketWithHeaderProtection at hpkt
    split at hpkt
    · exact absurd hpkt (by simp)
    · obtain ⟨hmax, padLen, hpad, hplen⟩ := length_of_encode hP hpkt
      exact ⟨hmax, padLen, hpad, by change _ = 28 + payload.length + padLen; omega⟩
  | withBuffer dstLen ptype payload r =>
    change (StreamFramer.frameWithBuffer P f dstLen ptype payload r).1 = _ at h
    simp only [StreamFramer.frameWithBuffer] at h
    split at h
    · exact absurd h (by simp)
    · obtain ⟨pkt, c, hpkt, hlen⟩ := hfinish _ h
      obtain ⟨hmax, padLen, hpad, hplen⟩ := length_of_encode hP hpkt
      exact ⟨hmax, padLen, hpad, by change _ = 28 + payload.length + padLen; omega⟩

/-- A fixed padding is cut down to what one byte can count. -/
theorem padLength_fixed {pad : ℤ} (hpad : 0 ≤ pad) (draw : ℕ) :
    padLength pad pad draw = .ok (min pad 255).toNat := by
  have hmax : maxPad pad pad = min pad 255 := by
    unfold maxPad
    simp only [lt_irrefl, if_false]
    split <;> omega
  unfold padLength fastRandomPaddingInplace fillUpTo
  rw [hmax, if_neg (by omega), if_pos le_rfl, if_neg (by omega)]
  congr 1
  omega

/-! ## What the length of a frame tells -/

/-- The size that the payloads of a bucket are padded to, if the padding is large enough. -/
def bucketTarget (payloadLen maxMTU : ℤ) : ℤ :=
  if maxMTU < 4 then 4
  else alignDown (min (payloadLen + (bucketPad payloadLen maxMTU).getD 0) maxMTU)

/-- Rounding takes away at most four bytes, also if the total overflows. -/
theorem roundPad_ge {pad : ℤ} (payloadLen maxMTU : ℤ) (hpad : 0 ≤ pad) (hmax : pad + 7 < 2 ^ 63) :
    pad - 4 ≤ roundPad payloadLen maxMTU pad := by
  have hlt := Int.tmod_lt_of_pos (wrap64 (payloadLen + pad)) (by decide : (0 : ℤ) < 4)
  have hgt := Int.lt_tmod_of_pos (wrap64 (payloadLen + pad)) (by decide : (0 : ℤ) < 4)
  have hup : wrap64 (pad + (4 - (wrap64 (payloadLen + pad)).tmod 4)) =
      pad + (4 - (wrap64 (payloadLen + pad)).tmod 4) := wrap64_of_bounds (by omega) (by omega)
  unfold roundPad
  simp only [hup]
  split_ifs <;> omega

/-- **The padding of a frame**: it reaches the size of the bucket unless that takes more than 255
bytes. -/
theorem payloadLen_add_min_pad {payloadLen maxMTU : ℤ} (draw : ℕ) (hpos : 0 < payloadLen)
    (hlt : payloadLen < maxMTU) (hmtu : maxMTU < 2 ^ 63) (hmax : payloadLen ≤ maxPayload) :
    payloadLen + min (calculateBucketPaddingWithTrailer payloadLen maxMTU 0 draw) 255 =
      min (max payloadLen (bucketTarget payloadLen maxMTU)) (payloadLen + 255) := by
  obtain ⟨b, hb, hpad⟩ := exists_smallestBound hlt
  have hle := hb.le
  have hbuckets : b ≤ 1024 ∨ maxMTU > 1024 ∧ b = maxMTU := by
    refine (mem_bucketBounds.1 hb.mem).imp_left fun hmem => ?_
    simp only [List.mem_cons, List.not_mem_nil, or_false] at hmem
    omega
  have htarget : bucketTarget payloadLen maxMTU =
      if maxMTU < 4 then 4 else alignDown (min b maxMTU) := by
    simp only [bucketTarget, hpad, Option.getD_some, add_sub_cancel]
  have hnone : trailerOf 0 draw = 0 := rfl
  have hpadding := calculateBucketPaddingWithTrailer_eq 0 draw hpos hlt hpad
  have hcut := payloadLen_add_cutPad maxMTU hpos (by omega : 0 ≤ b - payloadLen) (by omega)
  rw [hnone, add_zero, wrap64_of_bounds (by omega) (by omega)] at hpadding
  rw [add_sub_cancel] at hcut
  simp only [maxPayload] at hmax
  by_cases hsmall : maxMTU < 4
  · -- the only case in which the size exceeds the MTU
    have hround := payloadLen_add_roundPad maxMTU hpos
      (by omega : 0 ≤ cutPad payloadLen maxMTU (b - payloadLen)) (by omega)
    rw [hcut, ← hpadding] at hround
    unfold alignDown at hround
    rw [htarget, if_pos hsmall]
    split_ifs at hround <;> omega
  by_cases hover : min b maxMTU + 4 < 2 ^ 63
  · have hsize := payloadLen_add_pad 0 draw hpos hlt (by omega) hb hpad (by omega)
      (by rw [hnone, add_zero]; exact hover)
    rw [hnone, add_zero] at hsize
    rw [htarget, if_neg hsmall]
    omega
  · -- so close to the largest integer there is more padding than a frame can have
    have hlarge := mt (hb.least 1024 (mem_bucketBounds.2 (by simp)))
    have hge := roundPad_ge payloadLen maxMTU
      (by omega : 0 ≤ cutPad payloadLen maxMTU (b - payloadLen)) (by omega)
    rw [← hpadding] at hge
    rw [htarget, if_neg hsmall]
    unfold alignDown
    omega

theorem SmallestBound.of_sameBucket {maxMTU len₁ len₂ b : ℤ} (h : SameBucket maxMTU len₁ len₂)
    (hb : SmallestBound len₁ maxMTU b) : SmallestBound len₂ maxMTU b := by
  have hiff : ∀ b ∈ bucketBounds maxMTU, len₁ ≤ b ↔ len₂ ≤ b := by
    intro b hb
    refine h b ?_
    rcases mem_bucketBounds.1 hb with hb | ⟨-, rfl⟩
    · simp only [List.mem_cons, List.not_mem_nil, or_false] at hb ⊢
      omega
    · simp
  exact ⟨hb.mem, (hiff b hb.mem).1 hb.le, fun b' hb' hle => hb.least b' hb' ((hiff b' hb').2 hle)⟩

theorem bucketTarget_congr {maxMTU len₁ len₂ : ℤ} (h : SameBucket maxMTU len₁ len₂)
    (h₁ : len₁ < maxMTU) (h₂ : len₂ < maxMTU) :
    bucketTarget len₁ maxMTU = bucketTarget len₂ maxMTU := by
  obtain ⟨b₁, hb₁, hpad₁⟩ := exists_smallestBound h₁
  obtain ⟨b₂, hb₂, hpad₂⟩ := exists_smallestBound h₂
  have hb := hb₁.of_sameBucket h
  have heq : b₁ = b₂ := le_antisymm (hb.least _ hb₂.mem hb₂.le) (hb₂.least _ hb.mem hb.le)
  simp only [bucketTarget, hpad₁, hpad₂, Option.getD_some, add_sub_cancel, heq]

/-- A packet that the bucket padding is meant for. -/
structure BucketData (cfg : PaddingConfig) (p : Packet) : Prop where
  data : p.type = .data
  nonempty : p.payload ≠ []
  short : (p.payload.length : ℤ) < cfg.bucketMTU

/-- The size of the bucket can be reached: the payload is not above it and at most 255 bytes below. -/
def ReachesBucket (maxMTU payloadLen : ℤ) : Prop :=
  payloadLen ≤ bucketTarget payloadLen maxMTU ∧ bucketTarget payloadLen maxMTU ≤ payloadLen + 255

theorem Call.length_bucket (hP : P.AEADLawful) {f : StreamFramer} {call : Call} {fr : Bytes}
    (hbucket : f.paddingCfg.useBucketPadding = true) (htrailer : f.paddingCfg.maxTrailer = 0)
    (hmtu : f.paddingCfg.bucketMTU < 2 ^ 63) (hdata : BucketData f.paddingCfg call.packet)
    (h : (call.run P f).1 = .ok fr) :
    (fr.length : ℤ) = 28 + min
      (max (call.packet.payload.length : ℤ)
        (bucketTarget call.packet.payload.length f.paddingCfg.bucketMTU))
      (call.packet.payload.length + 255) := by
  obtain ⟨hmax, padLen, hpad, hlen⟩ := Call.length_run hP h
  have hpos := List.length_pos_iff.2 hdata.nonempty
  have hbounds : f.padBounds call.packet.type call.packet.payload call.draws =
      (calculateBucketPaddingWithTrailer call.packet.payload.length f.paddingCfg.bucketMTU 0
        call.draws.trailer,
      calculateBucketPaddingWithTrailer call.packet.payload.length f.paddingCfg.bucketMTU 0
        call.draws.trailer) := by
    simp only [StreamFramer.padBounds, hdata.data, hbucket, htrailer, and_self, if_true]
  have hnonneg := calculateBucketPaddingWithTrailer_nonneg call.packet.payload.length
    f.paddingCfg.bucketMTU 0 call.draws.trailer
  rw [hbounds, padLength_fixed hnonneg, Except.ok.injEq] at hpad
  rw [← payloadLen_add_min_pad call.draws.trailer (by omega) hdata.short hmtu (by omega)]
  omega

/-- **What the length of a frame tells**: two payloads of one bucket have frames of the same length
exactly when they have the same length or when both can be padded to the size of the bucket. -/
theorem frame_length_eq_iff (hP : P.AEADLawful) {f₁ f₂ : StreamFramer} {call₁ call₂ : Call}
    {fr₁ fr₂ : Bytes} (hcfg : f₂.paddingCfg = f₁.paddingCfg)
    (hbucket : f₁.paddingCfg.useBucketPadding = true) (htrailer : f₁.paddingCfg.maxTrailer = 0)
    (hmtu : f₁.paddingCfg.bucketMTU < 2 ^ 63)
    (hdata₁ : BucketData f₁.paddingCfg call₁.packet)
    (hdata₂ : BucketData f₁.paddingCfg call₂.packet)
    (hsame : SameBucket f₁.paddingCfg.bucketMTU call₁.packet.payload.length
      call₂.packet.payload.length)
    (h₁ : (call₁.run P f₁).1 = .ok fr₁) (h₂ : (call₂.run P f₂).1 = .ok fr₂) :
    fr₁.length = fr₂.length ↔
      call₁.packet.payload.length = call₂.packet.payload.length ∨
      ReachesBucket f₁.paddingCfg.bucketMTU call₁.packet.payload.length ∧
        ReachesBucket f₁.paddingCfg.bucketMTU call₂.packet.payload.length := by
  have hlen₁ := Call.length_bucket hP hbucket htrailer hmtu hdata₁ h₁
  have hlen₂ := Call.length_bucket hP (hcfg ▸ hbucket) (hcfg ▸ htrailer) (hcfg ▸ hmtu)
    (hcfg ▸ hdata₂) h₂
  rw [hcfg] at hlen₂
  have htarget := bucketTarget_congr hsame hdata₁.short hdata₂.short
  unfold ReachesBucket
  rw [htarget] at hlen₁ ⊢
  omega

/-- A sender without trailers. -/
def bucketSender : StreamFramer :=
  { sampleSender with paddingCfg := { defaultPaddingConfig with maxTrailer := 0 } }

/-- A data call with a payload of the given length. -/
def dataCall (len : ℕ) : Call := .frame .data (List.replicate len 7) ⟨0, 0, 0, fun _ => 0⟩

theorem bucketData_dataCall {len : ℕ} (hpos : 0 < len) (hlt : len < 1360) :
    BucketData bucketSender.paddingCfg (dataCall len).packet where
  data := rfl
  nonempty := by
    change List.replicate len 7 ≠ []
    rw [Ne, List.replicate_eq_nil_iff]
    omega
  short := by
    change ((List.replicate len (7 : UInt8)).length : ℤ) < 1360
    rw [List.length_replicate]
    omega

/-- Payloads of 800 and 1000 bytes are padded to the same size. -/
theorem frames_of_upper_bucket :
    ∃ fr₁ fr₂, ((dataCall 800).run .sample bucketSender).1 = .ok fr₁ ∧
      ((dataCall 1000).run .sample bucketSender).1 = .ok fr₂ ∧ fr₁.length = fr₂.length := by
  have hok : ∀ len ∈ [800, 1000], ∃ fr, ((dataCall len).run .sample bucketSender).1 = .ok fr := by
    intro len hlen
    have hsome : ((dataCall len).run .sample bucketSender).1.toOption.isSome = true := by
      revert len
      decide +kernel
    cases hrun : ((dataCall len).run .sample bucketSender).1 with
    | ok fr => exact ⟨fr, rfl⟩
    | error err => exact absurd hsome (by simp [hrun, Except.toOption])
  obtain ⟨fr₁, h₁⟩ := hok 800 (by simp)
  obtain ⟨fr₂, h₂⟩ := hok 1000 (by simp)
  refine ⟨fr₁, fr₂, h₁, h₂, (frame_length_eq_iff sample_lawful.toAEADLawful rfl rfl rfl (by decide)
    (bucketData_dataCall (by decide) (by decide)) (bucketData_dataCall (by decide) (by decide))
    (by unfold SameBucket; decide +kernel) h₁ h₂).2 (.inr ?_)⟩
  unfold ReachesBucket
  decide +kernel

/-- Payloads of 513 and 1000 bytes are in the bucket of 1024 bytes, but their frames differ. -/
theorem frames_of_lower_bucket :
    SameBucket 1360 513 1000 ∧
    ((dataCall 513).run .sample bucketSender).1.toOption.map List.length = some 796 ∧
    ((dataCall 1000).run .sample bucketSender).1.toOption.map List.length = some 1052 := by
  refine ⟨by unfold SameBucket; decide, by decide +kernel, by decide +kernel⟩

end Frames

end ObsidianVPN.Protocol
