import ObsidianVPN.Lib.Bytes

/-!
# Internet checksums

Checksums over 16-bit words in one's complement arithmetic, as IP and TCP use them, and the
overwriting of a field in a header.

* `patch`: bytes written over others; `getElem?_patch`, `slice_patch_self`, `slice_patch_of_disjoint`;
* `wordSum`: the sum of the big-endian words; `wordSum_append`, `wordSum_le`; `addWords`: the sum in
  32 bits;
* `fold`: the carries are added until none is left; `fold_eq_ones`, `fold_congr`;
* **`fold_checksum`**: with the complement of the folded sum in a field that counted as zero, the
  words add up to all ones;
* `updated`: the checksum after some words have changed, from their sums before and after;
  **`updated_eq`**: it is the checksum that is computed anew; `updated_mod`.
-/

namespace Checksum

open ByteStr

/-! ## Overwriting -/

/-- The bytes `v` written at the offset `off` of `b`. -/
def patch (b : Bytes) (off : ℕ) (v : Bytes) : Bytes :=
  b.take off ++ (v ++ b.drop (off + v.length))

section Patch

variable {b v : Bytes} {off : ℕ}

theorem length_patch (h : off + v.length ≤ b.length) : (patch b off v).length = b.length := by
  simp only [patch, List.length_append, List.length_take, List.length_drop]
  omega

theorem getElem?_patch (h : off + v.length ≤ b.length) (j : ℕ) :
    (patch b off v)[j]? = if off ≤ j ∧ j < off + v.length then v[j - off]? else b[j]? := by
  have htake : (b.take off).length = off := by
    rw [List.length_take]
    omega
  by_cases hlow : j < off
  · rw [patch, List.getElem?_append_left (by omega), List.getElem?_take_of_lt hlow,
      if_neg (by omega)]
  · rw [patch, List.getElem?_append_right (by omega), htake]
    by_cases hv : j < off + v.length
    · rw [List.getElem?_append_left (by omega), if_pos ⟨by omega, hv⟩]
    · rw [List.getElem?_append_right (by omega), List.getElem?_drop, if_neg (by omega)]
      congr 1
      omega

theorem patch_take (h : off + v.length ≤ b.length) {n : ℕ} (hn : n ≤ off) :
    (patch b off v).take n = b.take n := by
  rw [patch, List.take_append_of_le_length (by rw [List.length_take]; omega), List.take_take,
    Nat.min_eq_left hn]

theorem patch_drop (h : off + v.length ≤ b.length) {n : ℕ} (hn : off + v.length ≤ n) :
    (patch b off v).drop n = b.drop n := by
  apply List.ext_getElem?
  intro j
  rw [List.getElem?_drop, List.getElem?_drop, getElem?_patch h, if_neg (by omega)]

/-- Writing twice at the same place. -/
theorem patch_patch {w : Bytes} (h : off + v.length ≤ b.length) (hw : w.length = v.length) :
    patch (patch b off v) off w = patch b off w := by
  rw [patch, patch_take h le_rfl, patch_drop h (by omega), patch]

theorem slice_patch_self (h : off + v.length ≤ b.length) {n : ℕ} (hn : n = v.length) :
    slice (patch b off v) off n = v := by
  have htake : off = (b.take off).length := by
    rw [List.length_take]
    omega
  exact slice_middle _ _ _ htake hn

theorem patch_slice {n : ℕ} (h : off + n ≤ b.length) : patch b off (slice b off n) = b := by
  rw [patch, length_slice h, slice, ← List.drop_drop, List.take_append_drop, List.take_append_drop]

theorem getElem?_slice (b : Bytes) (off n j : ℕ) :
    (slice b off n)[j]? = if j < n then b[off + j]? else none := by
  rw [slice, List.getElem?_take, List.getElem?_drop]

theorem mem_of_mem_slice {b : Bytes} {off k start n : ℕ} {x : UInt8} (h : x ∈ slice b off k)
    (hlow : start ≤ off) (hhigh : off + k ≤ start + n) : x ∈ slice b start n := by
  obtain ⟨j, hj⟩ := List.mem_iff_getElem?.mp h
  rw [getElem?_slice] at hj
  split at hj
  · refine List.mem_iff_getElem?.mpr ⟨off + j - start, ?_⟩
    rw [getElem?_slice, if_pos (by omega), ← hj]
    congr 1
    omega
  · cases hj

theorem slice_patch_of_disjoint (h : off + v.length ≤ b.length) {start n : ℕ}
    (hdisj : start + n ≤ off ∨ off + v.length ≤ start) :
    slice (patch b off v) start n = slice b start n := by
  apply List.ext_getElem?
  intro j
  rw [getElem?_slice, getElem?_slice]
  split
  · rw [getElem?_patch h, if_neg (by omega)]
  · rfl

end Patch

/-! ## Sums of words -/

/-- The sum of the big-endian 16-bit words; an odd last byte is the high one. -/
def wordSum : Bytes → ℕ
  | a :: b :: rest => a.toNat * 256 + b.toNat + wordSum rest
  | [a] => a.toNat * 256
  | [] => 0

theorem wordSum_append (a b : Bytes) (h : a.length % 2 = 0) :
    wordSum (a ++ b) = wordSum a + wordSum b := by
  induction a using wordSum.induct with
  | case1 x y rest ih =>
    have := ih (by simp only [List.length_cons] at h; omega)
    simp only [List.cons_append, wordSum, this]
    omega
  | case2 x => simp at h
  | case3 => simp [wordSum]

theorem wordSum_le (b : Bytes) : wordSum b ≤ 65535 * ((b.length + 1) / 2) := by
  induction b using wordSum.induct with
  | case1 x y rest ih =>
    have := x.toNat_lt
    have := y.toNat_lt
    simp only [wordSum, List.length_cons]
    omega
  | case2 x =>
    have := x.toNat_lt
    simp only [wordSum, List.length_cons, List.length_nil]
    omega
  | case3 => simp [wordSum]

theorem wordSum_putBE_two (n : ℕ) : wordSum (putBE 2 n) = n % 65536 := by
  simp only [putBE, List.nil_append, List.cons_append, wordSum, UInt8.toNat_ofNat']
  omega

theorem wordSum_putBE_four {n : ℕ} (h : n < 65536) : wordSum (putBE 4 n) = n := by
  simp only [putBE, List.nil_append, List.cons_append, wordSum, UInt8.toNat_ofNat']
  omega

/-- A field of one word at an even offset counts by its value. -/
theorem wordSum_patch {b v : Bytes} {off : ℕ} (h : off + 2 ≤ b.length) (heven : off % 2 = 0)
    (hv : v.length = 2) :
    wordSum (patch b off v) = wordSum (b.take off) + (wordSum v + wordSum (b.drop (off + 2))) := by
  have htake : (b.take off).length = off := by
    rw [List.length_take]
    omega
  rw [patch, wordSum_append _ _ (by omega), wordSum_append _ _ (by omega), hv]

theorem wordSum_two {v : Bytes} (h : v.length = 2) : wordSum v = getBE v := by
  obtain ⟨x, y, rfl⟩ := List.length_eq_two.mp h
  simp [wordSum, getBE]

/-- A window of whole words splits the sum. -/
theorem wordSum_split {b : Bytes} {start n : ℕ} (h : start + n ≤ b.length) (hs : start % 2 = 0)
    (hn : n % 2 = 0) :
    wordSum b = wordSum (b.take start) + (wordSum (slice b start n) + wordSum (b.drop (start + n))) := by
  have htake : (b.take start).length = start := by
    rw [List.length_take]
    omega
  have hb : b = b.take start ++ (slice b start n ++ b.drop (start + n)) := by
    rw [slice, ← List.drop_drop, List.take_append_drop, List.take_append_drop]
  conv_lhs => rw [hb]
  rw [wordSum_append _ _ (by omega), wordSum_append _ _ (by rw [length_slice h]; omega)]

/-- Bytes written inside a window of whole words change the sum by the change of the window. -/
theorem wordSum_patch_window {b v : Bytes} {off start n : ℕ} (hlow : start ≤ off)
    (hhigh : off + v.length ≤ start + n) (h : start + n ≤ b.length) (hs : start % 2 = 0)
    (hn : n % 2 = 0) :
    wordSum (patch b off v) + wordSum (slice b start n) =
      wordSum b + wordSum (slice (patch b off v) start n) := by
  have hfit : off + v.length ≤ b.length := hhigh.trans h
  rw [wordSum_split h hs hn, wordSum_split (b := patch b off v) (by rwa [length_patch hfit]) hs hn,
    patch_take hfit hlow, patch_drop hfit hhigh]
  omega

theorem wordSum_pos_iff {b : Bytes} : 0 < wordSum b ↔ ∃ x ∈ b, x ≠ 0 := by
  have hbyte : ∀ x : UInt8, x ≠ 0 ↔ 0 < x.toNat := fun x => by
    rw [Nat.pos_iff_ne_zero, ne_eq, ne_eq, ← UInt8.toNat_inj]
    rfl
  induction b using wordSum.induct with
  | case1 a c rest ih =>
    simp only [wordSum, List.mem_cons, exists_eq_or_imp, ← ih]
    rw [hbyte, hbyte]
    omega
  | case2 a =>
    simp only [wordSum, List.mem_singleton, exists_eq_left, hbyte]
    omega
  | case3 => simp [wordSum]

/-- The words added to a 32-bit sum, one after another. -/
def addWords (sum : ℕ) : Bytes → ℕ
  | a :: b :: rest => addWords ((sum + (a.toNat * 256 + b.toNat)) % 2 ^ 32) rest
  | [a] => (sum + a.toNat * 256) % 2 ^ 32
  | [] => sum

theorem addWords_eq (sum : ℕ) (b : Bytes) (h : sum + wordSum b < 2 ^ 32) :
    addWords sum b = sum + wordSum b := by
  induction b using wordSum.induct generalizing sum with
  | case1 x y rest ih =>
    rw [wordSum, ← Nat.add_assoc] at h ⊢
    have hstep : sum + (x.toNat * 256 + y.toNat) < 2 ^ 32 := lt_of_le_of_lt (Nat.le_add_right _ _) h
    rw [addWords, Nat.mod_eq_of_lt hstep, ih _ h]
  | case2 x => exact Nat.mod_eq_of_lt h
  | case3 => rfl

/-! ## Folding -/

/-- The carry is added to the low word until there is none. -/
def fold (n : ℕ) : ℕ := if n < 65536 then n else fold (n % 65536 + n / 65536)
termination_by n
decreasing_by omega

/-- The folded sum is one word, congruent to the sum, and zero only for the sum zero. -/
theorem fold_spec (n : ℕ) : fold n < 65536 ∧ fold n % 65535 = n % 65535 ∧ (0 < n ↔ 0 < fold n) := by
  induction n using fold.induct with
  | case1 n h =>
    rw [fold, if_pos h]
    exact ⟨h, rfl, Iff.rfl⟩
  | case2 n h ih =>
    rw [fold, if_neg h]
    obtain ⟨hlt, hmod, hpos⟩ := ih
    exact ⟨hlt, by omega, by omega⟩

/-- A positive multiple of 65535 folds to all ones. -/
theorem fold_eq_ones {n : ℕ} (hpos : 0 < n) (hmod : n % 65535 = 0) : fold n = 65535 := by
  obtain ⟨hlt, hfold, hp⟩ := fold_spec n
  have := hp.mp hpos
  omega

/-- Positive sums that are congruent fold to the same word. -/
theorem fold_congr {a b : ℕ} (ha : 0 < a) (hb : 0 < b) (h : a % 65535 = b % 65535) :
    fold a = fold b := by
  obtain ⟨hlta, hmoda, hposa⟩ := fold_spec a
  obtain ⟨hltb, hmodb, hposb⟩ := fold_spec b
  have := hposa.mp ha
  have := hposb.mp hb
  omega

/-- A positive sum folds to all ones exactly when it is a multiple of 65535. -/
theorem fold_eq_ones_iff {n : ℕ} (hpos : 0 < n) : fold n = 65535 ↔ n % 65535 = 0 := by
  constructor
  · intro h
    rw [← (fold_spec n).2.1, h]
  · exact fold_eq_ones hpos

/-- **A checksum verifies.** `s` is what is summed beside the bytes. -/
theorem fold_checksum (s : ℕ) {b : Bytes} {off : ℕ} (h : off + 2 ≤ b.length) (heven : off % 2 = 0) :
    fold (s + wordSum (patch b off (putBE 2 (65535 - fold (s + wordSum (patch b off [0, 0])))))) =
      65535 := by
  rw [wordSum_patch h heven (length_putBE 2 _), wordSum_patch h heven rfl, wordSum_putBE_two]
  have hzero : wordSum [0, 0] = 0 := rfl
  rw [hzero, Nat.zero_add]
  -- the field holds `65535 - fold sum`, which the sum is congruent to the complement of
  generalize hsum : s + (wordSum (b.take off) + wordSum (b.drop (off + 2))) = sum
  obtain ⟨hlt, hmod, hpos⟩ := fold_spec sum
  generalize fold sum = f at hlt hmod hpos ⊢
  rw [Nat.mod_eq_of_lt (show 65535 - f < 65536 by omega)]
  have htotal : s + (wordSum (b.take off) + (65535 - f + wordSum (b.drop (off + 2)))) =
      sum + (65535 - f) := by omega
  rw [htotal]
  refine fold_eq_ones ?_ ?_
  · rcases Nat.eq_zero_or_pos sum with rfl | hsum
    · omega
    · exact Nat.add_pos_left hsum _
  · rw [Nat.add_mod, ← hmod, ← Nat.add_mod, Nat.add_sub_cancel' (by omega)]

/-! ## Incremental update -/

/-- The checksum `hc` after words with the sum `m` have been replaced by words with the sum `m'`. -/
def updated (hc m m' : ℕ) : ℕ := 65535 - fold ((65535 - hc) + (65535 - fold m) + fold m')

section Update

variable {hc m m' : ℕ} (hhc : hc < 65536)

include hhc

/-- **The updated checksum is the one computed anew**, if the old one was right: `s` is the sum of
the other words. -/
theorem updated_eq {s : ℕ} (hm' : 0 < m') (hold : (s + hc + m) % 65535 = 0) :
    updated hc m m' = 65535 - fold (s + m') := by
  obtain ⟨hlt, hmod, -⟩ := fold_spec m
  obtain ⟨-, hmod', hpos'⟩ := fold_spec m'
  have hpos := hpos'.mp hm'
  rw [updated, fold_congr (a := 65535 - hc + (65535 - fold m) + fold m') (b := s + m') (by omega)
    (by omega)]
  omega

/-- The update does not change the sum of all words up to multiples of 65535. -/
theorem updated_mod (s : ℕ) : (s + updated hc m m' + m') % 65535 = (s + hc + m) % 65535 := by
  obtain ⟨hlt, hmod, -⟩ := fold_spec m
  obtain ⟨-, hmod', -⟩ := fold_spec m'
  obtain ⟨hlt'', hmod'', -⟩ := fold_spec (65535 - hc + (65535 - fold m) + fold m')
  rw [updated]
  omega

end Update

end Checksum
