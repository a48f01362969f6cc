import Mathlib

/-!
# Rounding to double precision

The values of `float64` arithmetic are rational numbers that are rounded to 53 bits. Infinities are
left out: no value here comes near the largest double.

* `round`: the nearest double; **`round_intCast`**: an integer below `2 ^ 53` is a double;
* `trunc`: the conversion to an integer;
* `seconds`: `Duration.Seconds` of a number of nanoseconds; **`trunc_seconds`**: a whole number of
  seconds is exact.
-/

namespace Float64

/-- The nearest integer, and the even one if there are two. -/
def roundEven (q : ℚ) : ℤ :=
  if q - ⌊q⌋ < 1 / 2 ∨ (q - ⌊q⌋ = 1 / 2 ∧ Even ⌊q⌋) then ⌊q⌋ else ⌊q⌋ + 1

/-- The distance between the doubles around `q`. -/
def ulp (q : ℚ) : ℚ := 2 ^ max (Int.log 2 |q| - 52) (-1074)

/-- The nearest double. -/
def round (q : ℚ) : ℚ := roundEven (q / ulp q) * ulp q

/-- `int64(q)`, for a value in range. -/
def trunc (q : ℚ) : ℤ := if 0 ≤ q then ⌊q⌋ else ⌈q⌉

/-- `Duration.Seconds`: the whole seconds and the rest are converted and added. -/
def seconds (d : ℤ) : ℚ := round (round (d.tdiv (10 ^ 9)) + round (d.tmod (10 ^ 9) / 10 ^ 9))

theorem roundEven_intCast (n : ℤ) : roundEven n = n := by
  rw [roundEven, Int.floor_intCast, sub_self, if_pos (.inl (by norm_num))]

theorem ulp_pos (q : ℚ) : 0 < ulp q := zpow_pos (by norm_num) _

/-- An integer below `2 ^ 53` is a multiple of the distance of the doubles around it. -/
theorem exists_intCast_div_ulp {n : ℤ} (h : |n| < 2 ^ 53) : ∃ k : ℤ, (n : ℚ) / ulp n = k := by
  rcases eq_or_ne n 0 with rfl | hn
  · exact ⟨0, by simp⟩
  have hpos : (0 : ℚ) < |(n : ℚ)| := abs_pos.mpr (Int.cast_ne_zero.mpr hn)
  have hlog : Int.log 2 |(n : ℚ)| < 53 := by
    rw [← Int.lt_zpow_iff_log_lt (by norm_num) hpos]
    exact_mod_cast h
  -- the exponent is not positive, so dividing by the distance multiplies by a power of two
  have hexp : max (Int.log 2 |(n : ℚ)| - 52) (-1074) ≤ 0 := max_le (by omega) (by norm_num)
  obtain ⟨e, he⟩ := Int.eq_ofNat_of_zero_le (neg_nonneg.mpr hexp)
  refine ⟨n * 2 ^ e, ?_⟩
  rw [ulp, div_eq_mul_inv, ← zpow_neg, he, zpow_natCast]
  push_cast
  rfl

/-- **Integers of 53 bits are exact.** -/
theorem round_intCast {n : ℤ} (h : |n| < 2 ^ 53) : round n = n := by
  obtain ⟨k, hk⟩ := exists_intCast_div_ulp h
  rw [round, hk, roundEven_intCast, ← hk]
  exact div_mul_cancel₀ _ (ulp_pos _).ne'

/-- **A whole number of seconds is converted exactly.** -/
theorem trunc_seconds {m : ℤ} (h : |m| < 2 ^ 53) : trunc (seconds (m * 10 ^ 9)) = m := by
  have hzero : round (((m * 10 ^ 9).tmod (10 ^ 9) : ℤ) / 10 ^ 9 : ℚ) = 0 := by
    rw [Int.mul_tmod_left, Int.cast_zero, zero_div]
    exact_mod_cast round_intCast (n := 0) (by norm_num)
  have hsec : seconds (m * 10 ^ 9) = m := by
    rw [seconds, hzero, add_zero, Int.mul_tdiv_cancel _ (by norm_num), round_intCast h,
      round_intCast h]
  rw [trunc, hsec, Int.floor_intCast, Int.ceil_intCast, ite_self]

end Float64
