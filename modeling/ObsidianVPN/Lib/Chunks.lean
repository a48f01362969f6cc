import Mathlib

/-!
# Loops over chunks

A loop that advances an offset by a fixed step and produces one value in every round, as long as the
offset is below the length of what is cut up.

* `rounds`: the values produced; `getElem?_rounds`, `lt_length_rounds`;
* `flatten_take_rounds`: contents of the first rounds;
* **`rounds_cut`**: if every round carries its chunk, the values carry the whole, and the offset of a
  round is the number of elements carried before it.
-/

namespace Chunks

variable {α β : Type*}

/-- The loop from round `i` and offset `off` on. -/
def rounds (f : ℕ → ℕ → α) (len : ℕ) {step : ℕ} (hstep : 0 < step) (i off : ℕ) : List α :=
  if off < len then f i off :: rounds f len hstep (i + 1) (off + step) else []
termination_by len - off

section Rounds

variable (f : ℕ → ℕ → α) (len : ℕ) {step : ℕ} (hstep : 0 < step)

theorem getElem?_rounds (k i off : ℕ) : (rounds f len hstep i off)[k]? =
    if off + k * step < len then some (f (i + k) (off + k * step)) else none := by
  induction k generalizing i off with
  | zero =>
    rw [rounds, Nat.zero_mul]
    by_cases hoff : off < len <;> simp [hoff]
  | succ k ih =>
    have hmul : off + (k + 1) * step = off + step + k * step := by ring
    have hround : i + (k + 1) = i + 1 + k := by omega
    rw [rounds, hmul, hround]
    split
    · rw [List.getElem?_cons_succ, ih]
    · rw [if_neg (by omega)]
      rfl

theorem lt_length_rounds (k : ℕ) : k < (rounds f len hstep 0 0).length ↔ k * step < len := by
  rw [← not_le, ← List.getElem?_eq_none_iff, getElem?_rounds, Nat.zero_add]
  by_cases hk : k * step < len <;> simp [hk]

end Rounds

section Cut

variable {f : ℕ → ℕ → α} {whole : List β} {step : ℕ} (hstep : 0 < step) {g : α → List β}
  (hg : ∀ i off, off < whole.length → g (f i off) = (whole.drop off).take step)

include hg

/-- What the first `k` rounds carry. -/
theorem flatten_take_rounds (k i off : ℕ) :
    (((rounds f whole.length hstep i off).take k).map g).flatten =
      (whole.drop off).take (k * step) := by
  induction k generalizing i off with
  | zero => simp
  | succ k ih =>
    rw [rounds]
    split
    · rename_i hoff
      have hmul : (k + 1) * step = step + k * step := by ring
      rw [List.take_succ_cons, List.map_cons, List.flatten_cons, ih, hg i off hoff, hmul,
        List.take_add, List.drop_drop]
    · rw [List.drop_eq_nil_of_le (by omega)]
      simp

/-- **The rounds cut up the whole.** -/
theorem rounds_cut :
    ((rounds f whole.length hstep 0 0).map g).flatten = whole ∧
    ∀ i x, (rounds f whole.length hstep 0 0)[i]? = some x →
      i * step < whole.length ∧ x = f i (i * step) ∧
        (((rounds f whole.length hstep 0 0).take i).map g).flatten.length = i * step ∧
        (i + 1 = (rounds f whole.length hstep 0 0).length ↔ whole.length ≤ i * step + step) := by
  have hlt := lt_length_rounds f whole.length hstep
  constructor
  · have hall := flatten_take_rounds hstep hg (rounds f whole.length hstep 0 0).length 0 0
    rw [List.take_length, List.drop_zero] at hall
    rw [hall, List.take_of_length_le]
    have := (hlt (rounds f whole.length hstep 0 0).length).not
    omega
  · intro i x hx
    have hi := (List.getElem?_eq_some_iff.mp hx).1
    rw [getElem?_rounds, Nat.zero_add, Nat.zero_add] at hx
    split at hx
    · rename_i hoff
      refine ⟨hoff, (Option.some.inj hx).symm, ?_, ?_⟩
      · rw [flatten_take_rounds hstep hg, List.length_take, List.drop_zero]
        omega
      · have hnext := hlt (i + 1)
        have hmul : (i + 1) * step = i * step + step := by ring
        omega
    · cases hx

end Cut

/-- Every multiple of the step below the length is the offset of a round. -/
theorem getElem?_rounds_of_dvd (f : ℕ → ℕ → α) {len step : ℕ} (hstep : 0 < step) {off : ℕ}
    (hoff : off < len) (hdvd : step ∣ off) :
    (rounds f len hstep 0 0)[off / step]? = some (f (off / step) off) := by
  rw [getElem?_rounds, Nat.zero_add, Nat.zero_add, Nat.div_mul_cancel hdvd, if_pos hoff]

end Chunks
