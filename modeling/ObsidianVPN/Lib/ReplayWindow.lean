import Mathlib

/-!
# Sliding replay windows over 64-bit sequence numbers

A window remembers the largest sequence number it has accepted and, in a circular bitmap, which of
the numbers just below it were accepted. The bitmap is cleared by a loop on 64-bit integers, which
does not end if its last index is `2 ^ 64 - 1`; a call that does not return is `none`.

* `Bitmap`: bits in words of 64, with `test_set`, `test_clear`;
* `clearLoop`, `check`: the loop and the call; `endsAfter_clearLoop`: how many rounds the loop makes;
  `check_eq_none_iff`: when the call does not return;
* `Remembers w accepted`: no number in `accepted` can pass `w`; **`Remembers.check`**;
* `Tracks w accepted`: `w` knows exactly which numbers it has accepted; **`Tracks.answer_iff`**,
  **`Tracks.check_iff`**: a number passes exactly when it is new and not too old.
-/

namespace ReplayWindow

/-! ## Bits in words -/

/-- Words of 64 bits. -/
abbrev Bitmap (words : ℕ) := Vector (BitVec 64) words

namespace Bitmap

variable {words : ℕ}

def empty : Bitmap words := Vector.replicate words 0

/-- The word that holds the bit `idx`. -/
def word (b : Bitmap words) (idx : ℕ) : BitVec 64 := b[idx / 64]?.getD 0

def mask (idx : ℕ) : BitVec 64 := 1#64 <<< (idx % 64)

def test (b : Bitmap words) (idx : ℕ) : Bool := b.word idx &&& mask idx != 0

def set (b : Bitmap words) (idx : ℕ) : Bitmap words :=
  b.setIfInBounds (idx / 64) (b.word idx ||| mask idx)

def clear (b : Bitmap words) (idx : ℕ) : Bitmap words :=
  b.setIfInBounds (idx / 64) (b.word idx &&& ~~~mask idx)

theorem getLsbD_mask (idx k : ℕ) (hk : k < 64) : (mask idx).getLsbD k = decide (idx % 64 = k) := by
  have : idx % 64 < 64 := Nat.mod_lt _ (by decide)
  simp only [mask, BitVec.getLsbD_shiftLeft, hk, decide_true, Bool.true_and, BitVec.getLsbD_one]
  by_cases h : idx % 64 = k
  · simp [h]
  · simp only [h, decide_false, Bool.and_eq_false_iff, Bool.not_eq_false', decide_eq_true_eq,
      decide_eq_false_iff_not]
    omega

theorem test_eq (b : Bitmap words) (idx : ℕ) : b.test idx = (b.word idx).getLsbD (idx % 64) := by
  have hlt : idx % 64 < 64 := Nat.mod_lt _ (by decide)
  have hand : ∀ k < 64, (b.word idx &&& mask idx).getLsbD k =
      ((b.word idx).getLsbD k && decide (idx % 64 = k)) := fun k hk => by
    rw [BitVec.getLsbD_and, getLsbD_mask idx k hk]
  rw [Bool.eq_iff_iff]
  constructor
  · intro h
    by_contra hbit
    -- without its bit the masked word is zero
    refine (bne_iff_ne.mp h) (BitVec.eq_of_getLsbD_eq fun k hk => ?_)
    rw [hand k hk, show (0 : BitVec 64).getLsbD k = false from BitVec.getLsbD_zero]
    by_cases hk' : idx % 64 = k
    · subst hk'
      simpa using hbit
    · simp [hk']
  · intro h
    refine bne_iff_ne.mpr fun h0 => ?_
    have := hand _ hlt
    rw [h0, h] at this
    simp at this

theorem word_setIfInBounds (b : Bitmap words) {i j : ℕ} (hj : j < 64 * words) (x : BitVec 64) :
    word (b.setIfInBounds (i / 64) x) j = if i / 64 = j / 64 then x else b.word j := by
  have hlt : j / 64 < words := by omega
  simp only [word, Vector.getElem?_setIfInBounds]
  by_cases h : i / 64 = j / 64
  · simp [h, hlt]
  · simp [h]

@[simp] theorem test_empty (j : ℕ) : (empty : Bitmap words).test j = false := by
  have : (empty : Bitmap words).word j = 0 := by
    simp only [empty, word, Vector.getElem?_replicate]
    split <;> rfl
  rw [test_eq, this]
  exact BitVec.getLsbD_zero

/-- Two bits in one word with one place are the same bit. -/
theorem div_mod_eq_iff (i j : ℕ) : (i / 64 = j / 64 ∧ i % 64 = j % 64) ↔ i = j := by omega

theorem test_set (b : Bitmap words) (i : ℕ) {j : ℕ} (hj : j < 64 * words) :
    (b.set i).test j = (b.test j || decide (i = j)) := by
  have hlt : j % 64 < 64 := Nat.mod_lt _ (by decide)
  rw [test_eq, test_eq, set, word_setIfInBounds b hj]
  by_cases h : i / 64 = j / 64
  · have hw : b.word i = b.word j := by simp only [word, h]
    rw [if_pos h, BitVec.getLsbD_or, getLsbD_mask i _ hlt, hw]
    simp only [← div_mod_eq_iff i j, h, true_and]
  · rw [if_neg h]
    simp only [← div_mod_eq_iff i j, h, false_and, decide_false, Bool.or_false]

theorem test_clear (b : Bitmap words) (i : ℕ) {j : ℕ} (hj : j < 64 * words) :
    (b.clear i).test j = (b.test j && !decide (i = j)) := by
  have hlt : j % 64 < 64 := Nat.mod_lt _ (by decide)
  rw [test_eq, test_eq, clear, word_setIfInBounds b hj]
  by_cases h : i / 64 = j / 64
  · have hw : b.word i = b.word j := by simp only [word, h]
    rw [if_pos h, BitVec.getLsbD_and, BitVec.getLsbD_not, getLsbD_mask i _ hlt, hw]
    simp only [hlt, decide_true, Bool.true_and, ← div_mod_eq_iff i j, h, true_and]
  · rw [if_neg h]
    simp only [← div_mod_eq_iff i j, h, false_and, decide_false, Bool.not_false, Bool.and_true]

end Bitmap

/-! ## The window -/

/-- A window with room for `64 * words` sequence numbers. -/
structure Window (words : ℕ) where
  maxSeq : ℕ
  bitmap : Bitmap words
  deriving DecidableEq

variable {words : ℕ}

def Window.zero : Window words := ⟨0, .empty⟩

/-- The bits of the indices from `i` to `seq` are cleared; `none` if the steps do not suffice. -/
def clearLoop (seq : ℕ) : ℕ → Bitmap words → ℕ → Option (Bitmap words)
  | 0, _, _ => none
  | fuel + 1, b, i =>
    if i ≤ seq then clearLoop seq fuel (b.clear (i % (64 * words))) ((i + 1) % 2 ^ 64)
    else some b

/-- The call, with enough steps for as many rounds as there are numbers to clear. -/
def Window.check (w : Window words) (seq : ℕ) : Option (Bool × Window words) :=
  if seq > w.maxSeq then
    let diff := seq - w.maxSeq
    let bitmap :=
      if diff ≥ 64 * words then some .empty
      else clearLoop seq (diff + 1) w.bitmap ((w.maxSeq + 1) % 2 ^ 64)
    bitmap.map fun b => (true, ⟨seq, b.set (seq % (64 * words))⟩)
  else if w.maxSeq - seq ≥ 64 * words then some (false, w)
  else if w.bitmap.test (seq % (64 * words)) then some (false, w)
  else some (true, { w with bitmap := w.bitmap.set (seq % (64 * words)) })

/-! ## The loop -/

/-- Every 64-bit index is at most `2 ^ 64 - 1`, so that the loop up to there has no end. -/
theorem clearLoop_eq_none {seq : ℕ} (hseq : 2 ^ 64 ≤ seq + 1) (fuel : ℕ) (b : Bitmap words) {i : ℕ}
    (hi : i < 2 ^ 64) : clearLoop seq fuel b i = none := by
  induction fuel generalizing b i with
  | zero => rfl
  | succ fuel ih =>
    rw [clearLoop, if_pos (by omega)]
    exact ih _ (Nat.mod_lt _ (by norm_num))

/-- Below that the loop ends, after one round for each index. -/
theorem clearLoop_spec {seq : ℕ} (hseq : seq + 1 < 2 ^ 64) (n : ℕ) (b : Bitmap words) {i : ℕ}
    (hi : i + n = seq + 1) :
    ∃ b', clearLoop seq (n + 1) b i = some b' ∧ ∀ j < 64 * words,
      (b'.test j = true ↔ b.test j = true ∧ ∀ k, i ≤ k → k ≤ seq → k % (64 * words) ≠ j) := by
  induction n generalizing b i with
  | zero =>
    refine ⟨b, by rw [clearLoop, if_neg (by omega)], fun j _ => ?_⟩
    exact (and_iff_left fun k _ _ => absurd hi (by omega)).symm
  | succ n ih =>
    have hmod : (i + 1) % 2 ^ 64 = i + 1 := Nat.mod_eq_of_lt (by omega)
    obtain ⟨b', hb', hbits⟩ := ih (b.clear (i % (64 * words))) (i := i + 1) (by omega)
    refine ⟨b', by rw [clearLoop, if_pos (by omega), hmod, hb'], fun j hj => ?_⟩
    rw [hbits j hj, Bitmap.test_clear b _ hj, Bool.and_eq_true, and_assoc]
    refine and_congr_right fun _ => ?_
    -- the index `i` first, then the others
    constructor
    · rintro ⟨hne, hrest⟩ k hik hk
      rcases Nat.eq_or_lt_of_le hik with rfl | hlt
      · simpa using hne
      · exact hrest k hlt hk
    · intro h
      exact ⟨by simpa using h i le_rfl (by omega), fun k hik hk => h k (by omega) hk⟩

/-- The loop from `i` makes exactly `n` rounds: its condition holds `n` times and then fails. -/
def EndsAfter (seq : ℕ) (b : Bitmap words) (i n : ℕ) : Prop :=
  clearLoop seq n b i = none ∧ (clearLoop seq (n + 1) b i).isSome = true

theorem endsAfter_clearLoop {seq : ℕ} (hseq : seq + 1 < 2 ^ 64) (n : ℕ) (b : Bitmap words) {i : ℕ}
    (hi : i + n = seq + 1) : EndsAfter seq b i n := by
  induction n generalizing b i with
  | zero => exact ⟨rfl, by simp [clearLoop, show ¬i ≤ seq by omega]⟩
  | succ n ih =>
    have hmod : (i + 1) % 2 ^ 64 = i + 1 := Nat.mod_eq_of_lt (by omega)
    obtain ⟨hnone, hsome⟩ := ih (b.clear (i % (64 * words))) (i := i + 1) (by omega)
    constructor
    · rw [clearLoop, if_pos (by omega), hmod, hnone]
    · rw [clearLoop, if_pos (by omega), hmod, hsome]

/-- Two numbers of one window that share their place are equal. -/
theorem eq_of_mod_eq {size a b : ℕ} (h : a % size = b % size) (hab : a ≤ b) (hlt : b - a < size) :
    a = b := by
  have hdvd : size ∣ b - a := (Nat.modEq_iff_dvd' hab).mp h
  have := Nat.eq_zero_of_dvd_of_lt hdvd hlt
  omega

/-- Two numbers within reach of a third share their place only if they are equal. -/
theorem mod_eq_iff {size a b top : ℕ} (ha : a ≤ top) (hb : b ≤ top) (hna : top - a < size)
    (hnb : top - b < size) : a % size = b % size ↔ b = a := by
  refine ⟨fun heq => ?_, fun heq => by rw [heq]⟩
  rcases Nat.le_total a b with hab | hba
  · exact (eq_of_mod_eq heq hab (by omega)).symm
  · exact eq_of_mod_eq heq.symm hba (by omega)

/-- Moving the window up to a larger number keeps the marks of the old numbers that stay within reach
and clears those of the others. -/
theorem test_moved {w : Window words} {seq : ℕ} (hgt : seq > w.maxSeq) {b : Bitmap words}
    (hb : (if seq - w.maxSeq ≥ 64 * words then some .empty
      else clearLoop seq (seq - w.maxSeq + 1) w.bitmap ((w.maxSeq + 1) % 2 ^ 64)) = some b)
    {s : ℕ} (hs : s ≤ seq) (hnear : seq - s < 64 * words) :
    b.test (s % (64 * words)) = true ↔
      s ≤ w.maxSeq ∧ w.bitmap.test (s % (64 * words)) = true := by
  have hmod := Nat.mod_lt s (show 0 < 64 * words by omega)
  split at hb
  · rename_i hfar
    obtain rfl := Option.some.inj hb
    simp only [Bitmap.test_empty, Bool.false_eq_true, false_iff, not_and]
    intro hold
    omega
  · have hseq : seq + 1 < 2 ^ 64 := by
      by_contra hbig
      rw [clearLoop_eq_none (by omega) _ _ (Nat.mod_lt _ (by norm_num))] at hb
      exact absurd hb (by simp)
    obtain ⟨b', hb', hbits⟩ := clearLoop_spec hseq (seq - w.maxSeq) w.bitmap (i := w.maxSeq + 1)
      (by omega)
    rw [Nat.mod_eq_of_lt (by omega)] at hb
    obtain rfl := Option.some.inj (hb'.symm.trans hb)
    rw [hbits _ hmod, and_comm]
    refine and_congr_left fun _ => ⟨fun hclear => ?_, fun hold k hk hk' heq => ?_⟩
    · by_contra hnew
      exact hclear s (by omega) hs rfl
    · have := eq_of_mod_eq heq.symm (by omega) (by omega)
      omega

/-- **What an accepting call does**: the number becomes the largest one or was within reach of
it, it is marked, and the marks of the other numbers within reach stay. -/
theorem check_true {w w' : Window words} {seq : ℕ} (h : w.check seq = some (true, w')) :
    w'.maxSeq = max w.maxSeq seq ∧ (w.maxSeq < seq ∨ (w.maxSeq - seq < 64 * words ∧
      w.bitmap.test (seq % (64 * words)) = false)) ∧
    ∀ s ≤ w'.maxSeq, w'.maxSeq - s < 64 * words →
      (w'.bitmap.test (s % (64 * words)) = true ↔
        s = seq ∨ (s ≤ w.maxSeq ∧ w.bitmap.test (s % (64 * words)) = true)) := by
  unfold Window.check at h
  split at h
  · rename_i hgt
    obtain ⟨b, hb, hw'⟩ := Option.map_eq_some_iff.mp h
    simp only [Prod.mk.injEq, true_and] at hw'
    subst hw'
    refine ⟨(Nat.max_eq_right (Nat.le_of_lt hgt)).symm, .inl hgt, fun s hs hnear => ?_⟩
    simp only at hs hnear
    have hmod := Nat.mod_lt s (show 0 < 64 * words by omega)
    simp only [Bitmap.test_set b _ hmod, Bool.or_eq_true, decide_eq_true_eq,
      test_moved hgt hb hs hnear, mod_eq_iff le_rfl hs (show seq - seq < 64 * words by omega) hnear]
    exact or_comm
  · rename_i hle
    split at h
    · simp at h
    · rename_i hreach
      split at h
      · simp at h
      · rename_i hbit
        simp only [Option.some.injEq, Prod.mk.injEq, true_and] at h
        subst h
        refine ⟨(Nat.max_eq_left (Nat.le_of_not_lt hle)).symm, .inr ⟨by omega, by simpa using hbit⟩,
          fun s hs hnear => ?_⟩
        simp only at hs hnear
        have hmod := Nat.mod_lt s (show 0 < 64 * words by omega)
        simp only [Bitmap.test_set w.bitmap _ hmod, Bool.or_eq_true, decide_eq_true_eq,
          mod_eq_iff (Nat.le_of_not_lt hle) hs (not_le.mp hreach) hnear, hs, true_and]
        exact or_comm

/-- A refusing call changes nothing. -/
theorem check_false {w w' : Window words} {seq : ℕ} (h : w.check seq = some (false, w')) :
    w' = w := by
  unfold Window.check at h
  split at h
  · obtain ⟨b, -, hw'⟩ := Option.map_eq_some_iff.mp h
    simp at hw'
  · split at h
    · simpa using h.symm
    · split at h
      · simpa using h.symm
      · simp at h

/-- A refused number is not above the largest one, and it is too old or marked. -/
theorem refused_of_check {w w' : Window words} {seq : ℕ} (h : w.check seq = some (false, w')) :
    seq ≤ w.maxSeq ∧
      (64 * words ≤ w.maxSeq - seq ∨ w.bitmap.test (seq % (64 * words)) = true) := by
  unfold Window.check at h
  split at h
  · obtain ⟨b, -, hw'⟩ := Option.map_eq_some_iff.mp h
    simp at hw'
  · rename_i hle
    refine ⟨Nat.le_of_not_lt hle, ?_⟩
    split at h
    · exact .inl ‹_›
    · split at h
      · exact .inr ‹_›
      · simp at h

/-- The call does not return exactly when it moves the window by less than its size to the last
64-bit number (or beyond). -/
theorem check_eq_none_iff {w : Window words} {seq : ℕ} :
    w.check seq = none ↔
      w.maxSeq < seq ∧ seq - w.maxSeq < 64 * words ∧ 2 ^ 64 ≤ seq + 1 := by
  unfold Window.check
  split
  · rename_i hgt
    simp only [Option.map_eq_none_iff, ge_iff_le, hgt, true_and]
    split
    · rename_i hfar
      simp only [reduceCtorEq, false_iff, not_and]
      omega
    · rename_i hfar
      by_cases hbig : 2 ^ 64 ≤ seq + 1
      · exact iff_of_true (clearLoop_eq_none hbig _ _ (Nat.mod_lt _ (by norm_num)))
          ⟨by omega, hbig⟩
      · have hstart : (w.maxSeq + 1) % 2 ^ 64 = w.maxSeq + 1 := Nat.mod_eq_of_lt (by omega)
        have hseq : seq + 1 < 2 ^ 64 := by omega
        obtain ⟨b', hb', -⟩ := clearLoop_spec hseq (seq - w.maxSeq) w.bitmap (i := w.maxSeq + 1)
          (by omega)
        rw [hstart, hb']
        exact iff_of_false (by simp) fun h => hbig h.2
  · rename_i hle
    have : ¬w.maxSeq < seq := by omega
    simp only [this, false_and, iff_false]
    split
    · simp
    · split <;> simp

/-! ## What a window knows about the past -/

/-- Every number in `accepted` is marked or too old. -/
structure Remembers (w : Window words) (accepted : List ℕ) : Prop where
  le_max : ∀ s ∈ accepted, s ≤ w.maxSeq
  marked : ∀ s ∈ accepted, w.maxSeq - s < 64 * words → w.bitmap.test (s % (64 * words)) = true

theorem remembers_nil (w : Window words) : Remembers w [] := ⟨by simp, by simp⟩

/-- **No number passes twice.** -/
theorem Remembers.check {w w' : Window words} {accepted : List ℕ} (h : Remembers w accepted)
    {seq : ℕ} (hc : w.check seq = some (true, w')) :
    seq ∉ accepted ∧ Remembers w' (seq :: accepted) := by
  obtain ⟨hmax, hpass, hbits⟩ := check_true hc
  refine ⟨fun hmem => ?_, fun s hs => ?_, fun s hs hnear => ?_⟩
  · have hle := h.le_max seq hmem
    rcases hpass with hlt | ⟨hnear, hclear⟩
    · omega
    · exact absurd (h.marked seq hmem hnear) (by simp [hclear])
  · rcases List.mem_cons.mp hs with rfl | hs
    · omega
    · have := h.le_max s hs
      omega
  · have hle : s ≤ w'.maxSeq := by
      rcases List.mem_cons.mp hs with rfl | hs
      · omega
      · have := h.le_max s hs
        omega
    refine (hbits s hle hnear).mpr ?_
    rcases List.mem_cons.mp hs with rfl | hs
    · exact .inl rfl
    · have hold := h.le_max s hs
      exact .inr ⟨hold, h.marked s hs (by omega)⟩

/-- The window knows exactly which numbers it has accepted. -/
structure Tracks (w : Window words) (accepted : List ℕ) : Prop extends Remembers w accepted where
  mem_of_marked : ∀ s ≤ w.maxSeq, w.maxSeq - s < 64 * words →
    w.bitmap.test (s % (64 * words)) = true → s ∈ accepted

theorem tracks_zero : Tracks (Window.zero : Window words) [] where
  le_max := by simp
  marked := by simp
  mem_of_marked s _ _ hbit := by simp [Window.zero] at hbit

theorem Tracks.check {w w' : Window words} {accepted : List ℕ} (h : Tracks w accepted) {seq : ℕ}
    (hc : w.check seq = some (true, w')) : Tracks w' (seq :: accepted) where
  toRemembers := (h.toRemembers.check hc).2
  mem_of_marked s hs hnear hbit := by
    obtain ⟨hmax, -, hbits⟩ := check_true hc
    rcases (hbits s hs hnear).mp hbit with rfl | ⟨hold, hbit⟩
    · exact List.mem_cons_self
    · exact List.mem_cons_of_mem _ (h.mem_of_marked s hold (by omega) hbit)

/-- **A call that returns accepts exactly the numbers that are new and not too old.** -/
theorem Tracks.answer_iff {w w' : Window words} {accepted : List ℕ} (h : Tracks w accepted)
    {seq : ℕ} {ok : Bool} (hc : w.check seq = some (ok, w')) :
    ok = true ↔ seq ∉ accepted ∧ (w.maxSeq < seq ∨ w.maxSeq - seq < 64 * words) := by
  cases ok with
  | true =>
    refine iff_of_true rfl ⟨(h.toRemembers.check hc).1, ?_⟩
    exact (check_true hc).2.1.imp_right And.left
  | false =>
    obtain ⟨hle, hrefused⟩ := refused_of_check hc
    refine iff_of_false (by simp) ?_
    rintro ⟨hnew, hreach⟩
    rcases hrefused with hfar | hbit
    · omega
    · exact hnew (h.mem_of_marked seq hle (by omega) hbit)

/-- **A number passes exactly when it is new and not too old.** -/
theorem Tracks.check_iff {w : Window words} {accepted : List ℕ} (h : Tracks w accepted) {seq : ℕ}
    (hseq : seq + 1 < 2 ^ 64) :
    (∃ w', w.check seq = some (true, w')) ↔
      seq ∉ accepted ∧ (w.maxSeq < seq ∨ w.maxSeq - seq < 64 * words) := by
  cases hc : w.check seq with
  | none =>
    have := (check_eq_none_iff.mp hc).2.2
    omega
  | some r =>
    obtain ⟨ok, w'⟩ := r
    rw [← h.answer_iff hc]
    simp

end ReplayWindow
