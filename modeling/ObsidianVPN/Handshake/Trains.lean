import ObsidianVPN.Handshake.Wire

/-!
# Signature and junk trains

Before its hello the client may send packets that look like other protocols, and packets of random
bytes. Each is a frame `len(4) || bytes`; the server does not parse them.

* `buildSignatureTrain`, `buildJunkTrain`: the two functions of the source, over the random draws;
* `length_buildSignatureTrain`: the signature train has the same length in every connection;
* **`buildJunkTrain_ok`**, **`buildJunkTrain_longest`**: a junk train has at most `maxJunkTrain`
  bytes, and some draws give one of this length.
-/

namespace ObsidianVPN.Handshake

open ByteStr

/-- The random choices for the trains of one connection, and the clock at each signature. -/
structure TrainDraws where
  sigTime : ℕ → ℤ
  sigBytes : ℕ → ℕ → ℕ → UInt8
  junkCount : UInt8
  junkSize : ℕ → UInt16
  junkBytes : ℕ → ℕ → UInt8

/-- A packet of a train. -/
def trainFrame (pkt : Bytes) : Bytes := putBE 4 pkt.length ++ pkt

theorem length_trainFrame (pkt : Bytes) : (trainFrame pkt).length = 4 + pkt.length := by
  rw [trainFrame, List.length_append, length_putBE]

/-! ## Signatures -/

/-- The loop of `BuildSignatureTrain`, from signature number `i` on. -/
def signatureFrames (d : TrainDraws) : ℕ → List CPSSignature → Bytes
  | _, [] => []
  | i, sig :: sigs =>
    trainFrame (sig.generate (d.sigTime i) (d.sigBytes i)) ++ signatureFrames d (i + 1) sigs

def buildSignatureTrain (sigs : List CPSSignature) (d : TrainDraws) : Bytes :=
  signatureFrames d 0 sigs

/-- The length of the signature train. -/
def signatureTrainSize (sigs : List CPSSignature) : ℕ := (sigs.map fun sig => 4 + sig.size).sum

theorem length_signatureFrames (d : TrainDraws) (i : ℕ) (sigs : List CPSSignature) :
    (signatureFrames d i sigs).length = signatureTrainSize sigs := by
  induction sigs generalizing i with
  | nil => rfl
  | cons sig sigs ih =>
    rw [signatureFrames, List.length_append, length_trainFrame, sig.length_generate, ih]
    rfl

theorem length_buildSignatureTrain (sigs : List CPSSignature) (d : TrainDraws) :
    (buildSignatureTrain sigs d).length = signatureTrainSize sigs := length_signatureFrames d 0 sigs

/-! ## Sizes -/

theorem natCast_emod_le (n : ℕ) {m : ℤ} (hm : 0 ≤ m) : (n : ℤ) % m ≤ n := by
  lift m to ℕ using hm
  exact_mod_cast Nat.mod_le n m

def randomRangeInt (min max : ℤ) (rb : UInt16) : ℤ :=
  if max ≤ min then min else wrap64 (min + (rb.toNat : ℤ).tmod (wrap64 (max - min)))

/-- The largest result of `randomRangeInt`. -/
def maxRangeInt (min max : ℤ) : ℤ := if max ≤ min then min else min + Min.min (max - min) 65536 - 1

theorem randomRangeInt_of_lt {min max : ℤ} (hmin : 0 ≤ min) (hlt : min < max) (hmax : max < 2 ^ 63)
    (rb : UInt16) : randomRangeInt min max rb = min + rb.toNat % (max - min) := by
  have hmod := Int.emod_lt_of_pos (rb.toNat : ℤ) (by omega : 0 < max - min)
  have hnn := Int.emod_nonneg (rb.toNat : ℤ) (by omega : max - min ≠ 0)
  rw [randomRangeInt, if_neg (by omega), wrap64_of_bounds (x := max - min) (by omega) (by omega),
    Int.tmod_eq_emod_of_nonneg (by omega), wrap64_of_bounds (by omega) (by omega)]

theorem randomRangeInt_mem {min max : ℤ} (hmin : 0 ≤ min) (hmax : max < 2 ^ 63) (rb : UInt16) :
    min ≤ randomRangeInt min max rb ∧ randomRangeInt min max rb ≤ maxRangeInt min max := by
  by_cases hle : max ≤ min
  · rw [randomRangeInt, maxRangeInt, if_pos hle, if_pos hle]
    exact ⟨le_rfl, le_rfl⟩
  · have hmod := Int.emod_lt_of_pos (rb.toNat : ℤ) (by omega : 0 < max - min)
    have hnn := Int.emod_nonneg (rb.toNat : ℤ) (by omega : max - min ≠ 0)
    have hself := natCast_emod_le rb.toNat (by omega : 0 ≤ max - min)
    have hrb := rb.toNat_lt
    rw [randomRangeInt_of_lt hmin (by omega) hmax, maxRangeInt, if_neg hle]
    omega

/-- The draw that gives the largest result. -/
def maxRangeDraw (min max : ℤ) : UInt16 := UInt16.ofNat (Min.min (max - min) 65536 - 1).toNat

theorem randomRangeInt_maxRangeDraw {min max : ℤ} (hmin : 0 ≤ min) (hmax : max < 2 ^ 63) :
    randomRangeInt min max (maxRangeDraw min max) = maxRangeInt min max := by
  by_cases hle : max ≤ min
  · rw [randomRangeInt, maxRangeInt, if_pos hle, if_pos hle]
  · have hdraw : ((maxRangeDraw min max).toNat : ℤ) = Min.min (max - min) 65536 - 1 := by
      rw [maxRangeDraw, UInt16.toNat_ofNat', Nat.mod_eq_of_lt (by omega)]
      omega
    rw [randomRangeInt_of_lt hmin (by omega) hmax, maxRangeInt, if_neg hle, hdraw,
      Int.emod_eq_of_lt (by omega) (by omega)]
    omega

/-! ## Junk -/

/-- The loop of `BuildJunkTrain`: `n` more packets, from number `i` on. -/
def junkFrames (cfg : ObfuscationConfig) (d : TrainDraws) : ℕ → ℕ → Except String Bytes
  | _, 0 => .ok []
  | i, n + 1 =>
    match makeRandom (randomRangeInt cfg.junkMin cfg.junkMax (d.junkSize i)) (d.junkBytes i) with
    | .error err => .error err
    | .ok payload =>
      match junkFrames cfg d (i + 1) n with
      | .error err => .error err
      | .ok out => .ok (trainFrame payload ++ out)

/-- `BuildJunkTrain`: the train and the number of its packets. -/
def buildJunkTrain (cfg : ObfuscationConfig) (d : TrainDraws) : Except String (Bytes × ℕ) :=
  if cfg.junkCount = 0 then .ok ([], 0)
  else
    let count := (1 + (d.junkCount.toNat : ℤ).tmod cfg.junkCount).toNat
    match junkFrames cfg d 0 count with
    | .error err => .error err
    | .ok out => .ok (out, count)

/-- Junk is sent, and its sizes are sizes of slices. -/
structure ObfuscationConfig.SendsJunk (cfg : ObfuscationConfig) : Prop where
  junkCount : 0 < cfg.junkCount
  junkMin : 0 ≤ cfg.junkMin
  junkMax : cfg.junkMax < 2 ^ 63

/-- The length of the longest junk train: the number of packets is drawn from one byte, and the size
of each from two. -/
def maxJunkTrain (cfg : ObfuscationConfig) : ℤ :=
  min cfg.junkCount 256 * (4 + maxRangeInt cfg.junkMin cfg.junkMax)

variable {cfg : ObfuscationConfig}

/-- **The length of a junk train** is the sum of the lengths of its packets. -/
theorem junkFrames_ok (h : cfg.SendsJunk) (d : TrainDraws) (i n : ℕ) :
    ∃ out, junkFrames cfg d i n = .ok out ∧ (out.length : ℤ) =
      ∑ j ∈ Finset.range n, (4 + randomRangeInt cfg.junkMin cfg.junkMax (d.junkSize (i + j))) := by
  induction n generalizing i with
  | zero => exact ⟨[], rfl, rfl⟩
  | succ n ih =>
    obtain ⟨out, hout, hlen⟩ := ih (i + 1)
    have hsize := (randomRangeInt_mem h.junkMin h.junkMax (d.junkSize i)).1
    have hmin := h.junkMin
    set size := randomRangeInt cfg.junkMin cfg.junkMax (d.junkSize i) with hdef
    refine ⟨trainFrame (fill size.toNat (d.junkBytes i)) ++ out, ?_, ?_⟩
    · rw [junkFrames, ← hdef, makeRandom, if_neg (by omega)]
      simp only [hout]
    · rw [Finset.sum_range_succ', List.length_append, length_trainFrame, length_fill, Nat.add_zero,
        ← hdef]
      simp only [Nat.add_right_comm i _ 1, ← Nat.add_assoc] at hlen ⊢
      push_cast
      omega

/-- The bytes of a junk train are bytes of a length or random bytes. -/
theorem mem_junkFrames {d : TrainDraws} {i n : ℕ} {out : Bytes} (h : junkFrames cfg d i n = .ok out)
    {b : UInt8} (hb : b ∈ out) :
    ∃ j, b ∈ putBE 4 (randomRangeInt cfg.junkMin cfg.junkMax (d.junkSize j)).toNat ∨
      ∃ k, b = d.junkBytes j k := by
  induction n generalizing i out with
  | zero =>
    obtain rfl := Except.ok.inj h
    exact absurd hb List.not_mem_nil
  | succ n ih =>
    rw [junkFrames, makeRandom] at h
    split at h
    · exact absurd h (by simp)
    · rename_i payload hpayload
      split at h
      · exact absurd h (by simp)
      · rename_i rest hrest
        obtain rfl := Except.ok.inj h
        split at hpayload
        · exact absurd hpayload (by simp)
        · obtain rfl := Except.ok.inj hpayload
          rw [List.mem_append, trainFrame, List.mem_append, length_fill] at hb
          rcases hb with (hb | hb) | hb
          · exact ⟨i, .inl hb⟩
          · obtain ⟨k, -, rfl⟩ := List.mem_map.mp hb
            exact ⟨i, .inr ⟨k, rfl⟩⟩
          · exact ih hrest hb

theorem mem_buildJunkTrain {d : TrainDraws} {out : Bytes} {count : ℕ}
    (h : buildJunkTrain cfg d = .ok (out, count)) {b : UInt8} (hb : b ∈ out) :
    ∃ j, b ∈ putBE 4 (randomRangeInt cfg.junkMin cfg.junkMax (d.junkSize j)).toNat ∨
      ∃ k, b = d.junkBytes j k := by
  unfold buildJunkTrain at h
  split at h
  · rw [← (Prod.mk.inj (Except.ok.inj h)).1] at hb
    exact absurd hb List.not_mem_nil
  · dsimp only at h
    split at h
    · exact absurd h (by simp)
    · rename_i out' hout
      rw [← (Prod.mk.inj (Except.ok.inj h)).1] at hb
      exact mem_junkFrames hout hb

/-- The number of packets. -/
theorem junkCount_eq (h : cfg.SendsJunk) (rb : UInt8) :
    ((1 + (rb.toNat : ℤ).tmod cfg.junkCount).toNat : ℤ) = 1 + rb.toNat % cfg.junkCount := by
  have hnn := Int.emod_nonneg (rb.toNat : ℤ) h.junkCount.ne'
  rw [Int.tmod_eq_emod_of_nonneg (by omega)]
  omega

theorem buildJunkTrain_sum (h : cfg.SendsJunk) (d : TrainDraws) :
    ∃ out count, buildJunkTrain cfg d = .ok (out, count) ∧
      (count : ℤ) = 1 + d.junkCount.toNat % cfg.junkCount ∧ (out.length : ℤ) =
        ∑ j ∈ Finset.range count, (4 + randomRangeInt cfg.junkMin cfg.junkMax (d.junkSize j)) := by
  obtain ⟨out, hout, hlen⟩ :=
    junkFrames_ok h d 0 (1 + (d.junkCount.toNat : ℤ).tmod cfg.junkCount).toNat
  refine ⟨out, _, ?_, junkCount_eq h d.junkCount, ?_⟩
  · rw [buildJunkTrain, if_neg h.junkCount.ne']
    simp only [hout]
  · simpa only [Nat.zero_add] using hlen

/-- **A junk train is at most `maxJunkTrain` bytes long.** -/
theorem buildJunkTrain_ok (h : cfg.SendsJunk) (d : TrainDraws) :
    ∃ out count, buildJunkTrain cfg d = .ok (out, count) ∧ (out.length : ℤ) ≤ maxJunkTrain cfg := by
  obtain ⟨out, count, hout, hcount, hlen⟩ := buildJunkTrain_sum h d
  have hle : (count : ℤ) ≤ min cfg.junkCount 256 := by
    have hlt := Int.emod_lt_of_pos (d.junkCount.toNat : ℤ) h.junkCount
    have hself := natCast_emod_le d.junkCount.toNat h.junkCount.le
    have hrb := d.junkCount.toNat_lt
    omega
  have hmin := h.junkMin
  have hrange := randomRangeInt_mem h.junkMin h.junkMax
  refine ⟨out, count, hout, ?_⟩
  calc (out.length : ℤ)
      = ∑ j ∈ Finset.range count, (4 + randomRangeInt cfg.junkMin cfg.junkMax (d.junkSize j)) := hlen
    _ ≤ ∑ _j ∈ Finset.range count, (4 + maxRangeInt cfg.junkMin cfg.junkMax) :=
        Finset.sum_le_sum fun j _ => by have := (hrange (d.junkSize j)).2; omega
    _ = count * (4 + maxRangeInt cfg.junkMin cfg.junkMax) := by simp
    _ ≤ maxJunkTrain cfg := by
        refine mul_le_mul_of_nonneg_right hle ?_
        have := hrange 0
        omega

/-- The draws of the longest junk train. -/
def TrainDraws.longest (d : TrainDraws) (cfg : ObfuscationConfig) : TrainDraws :=
  { d with
    junkCount := UInt8.ofNat (min cfg.junkCount 256 - 1).toNat
    junkSize := fun _ => maxRangeDraw cfg.junkMin cfg.junkMax }

/-- **Some draws give a junk train of this length.** -/
theorem buildJunkTrain_longest (h : cfg.SendsJunk) (d : TrainDraws) :
    ∃ out count, buildJunkTrain cfg (d.longest cfg) = .ok (out, count) ∧
      (out.length : ℤ) = maxJunkTrain cfg := by
  obtain ⟨out, count, hout, hcount, hlen⟩ := buildJunkTrain_sum h (d.longest cfg)
  have hpos := h.junkCount
  have hmax : (count : ℤ) = min cfg.junkCount 256 := by
    have hdraw : ((d.longest cfg).junkCount.toNat : ℤ) = min cfg.junkCount 256 - 1 := by
      rw [TrainDraws.longest, UInt8.toNat_ofNat', Nat.mod_eq_of_lt (by omega)]
      omega
    rw [hcount, hdraw, Int.emod_eq_of_lt (by omega) (by omega)]
    omega
  refine ⟨out, count, hout, ?_⟩
  rw [hlen, maxJunkTrain, ← hmax]
  simp only [TrainDraws.longest, randomRangeInt_maxRangeDraw h.junkMin h.junkMax, Finset.sum_const,
    Finset.card_range, nsmul_eq_mul]

end ObsidianVPN.Handshake
