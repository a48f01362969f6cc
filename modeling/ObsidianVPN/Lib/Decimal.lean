import ObsidianVPN.Lib.Bytes

/-!
# Decimal numbers

The conversions of the package `strconv` between integers and their decimal text, on byte strings.

* `formatNat`, `itoa`: `FormatUint` and `Itoa`; `parseNat`, `parseUint`, `atoi`: the digits of a
  number, `ParseUint` and `Atoi`, where `none` is an error;
* **`parseUint_formatNat`**, **`atoi_itoa`**: a number in range is read back.
-/

namespace Decimal

open ByteStr

def isDigit (c : UInt8) : Bool := 0x30 ≤ c && c ≤ 0x39

/-- The digit `d` as a character. -/
def digit (d : ℕ) : UInt8 := UInt8.ofNat (0x30 + d)

def formatNat (n : ℕ) : Bytes := if n = 0 then [0x30] else (Nat.digits 10 n).reverse.map digit

def itoa (v : ℤ) : Bytes := if v < 0 then 0x2d :: formatNat v.natAbs else formatNat v.natAbs

/-- The value of a string of digits. -/
def value (s : Bytes) : ℕ := s.foldl (fun n c => 10 * n + (c.toNat - 0x30)) 0

/-- The number that a string of digits stands for; there has to be at least one. -/
def parseNat (s : Bytes) : Option ℕ := if s ≠ [] ∧ s.all isDigit then some (value s) else none

/-- `strconv.ParseUint(s, 10, bits)`. -/
def parseUint (bits : ℕ) (s : Bytes) : Option ℕ := (parseNat s).filter fun n => decide (n < 2 ^ bits)

/-- The value, if it has 64 bits. -/
def int64 (v : ℤ) : Option ℤ := if -2 ^ 63 ≤ v ∧ v < 2 ^ 63 then some v else none

/-- `strconv.Atoi`: a sign, the digits, and a value of 64 bits. -/
def atoi (s : Bytes) : Option ℤ :=
  if s.head? = some 0x2d then (parseNat s.tail).bind fun n => int64 (-n)
  else if s.head? = some 0x2b then (parseNat s.tail).bind fun n => int64 n
  else (parseNat s).bind fun n => int64 n

theorem isDigit_digit {d : ℕ} (h : d < 10) : isDigit (digit d) = true := by
  interval_cases d <;> rfl

theorem toNat_digit {d : ℕ} (h : d < 10) : (digit d).toNat = 0x30 + d := by
  interval_cases d <;> rfl

/-- The digits of a number, the lowest one first, have its value. -/
theorem value_reverse_map_digit {l : List ℕ} (h : ∀ d ∈ l, d < 10) :
    value (l.reverse.map digit) = Nat.ofDigits 10 l := by
  induction l with
  | nil => rfl
  | cons d l ih =>
    have hd : d < 10 := h d List.mem_cons_self
    have hl := ih fun d' hd' => h d' (List.mem_cons_of_mem d hd')
    rw [value] at hl
    rw [value, List.reverse_cons, List.map_append, List.foldl_append, hl, Nat.ofDigits_cons]
    simp only [List.map_cons, List.map_nil, List.foldl_cons, List.foldl_nil, toNat_digit hd]
    omega

theorem all_isDigit_formatNat (n : ℕ) : (formatNat n).all isDigit = true := by
  unfold formatNat
  split
  · rfl
  · simp only [List.all_map, List.all_reverse, List.all_eq_true, Function.comp_apply]
    exact fun d hd => isDigit_digit (Nat.digits_lt_base (by decide) hd)

theorem formatNat_ne_nil (n : ℕ) : formatNat n ≠ [] := by
  unfold formatNat
  split
  · simp
  · rename_i hn
    simpa [Nat.digits_eq_nil_iff_eq_zero] using hn

theorem itoa_ne_nil (v : ℤ) : itoa v ≠ [] := by
  unfold itoa
  split
  · simp
  · exact formatNat_ne_nil _

theorem parseNat_formatNat (n : ℕ) : parseNat (formatNat n) = some n := by
  rw [parseNat, if_pos ⟨formatNat_ne_nil n, all_isDigit_formatNat n⟩]
  unfold formatNat
  split
  · rename_i hn
    rw [hn]
    rfl
  · rw [value_reverse_map_digit fun d hd => Nat.digits_lt_base (by decide) hd, Nat.ofDigits_digits]

/-- **`ParseUint` undoes `FormatUint`.** -/
theorem parseUint_formatNat {bits n : ℕ} (h : n < 2 ^ bits) :
    parseUint bits (formatNat n) = some n := by
  simp [parseUint, parseNat_formatNat, h]

theorem head_formatNat (n : ℕ) {c : UInt8} (hc : isDigit c = false) :
    (formatNat n).head? ≠ some c := by
  intro heq
  have hmem : c ∈ formatNat n := List.mem_of_head? heq
  have := List.all_eq_true.mp (all_isDigit_formatNat n) c hmem
  rw [hc] at this
  exact absurd this (by decide)

/-- **`Atoi` undoes `Itoa`.** -/
theorem atoi_itoa {v : ℤ} (hlow : -2 ^ 63 ≤ v) (hhigh : v < 2 ^ 63) : atoi (itoa v) = some v := by
  have hv : int64 v = some v := if_pos ⟨hlow, hhigh⟩
  unfold itoa atoi
  split
  · rename_i hneg
    have habs : -(v.natAbs : ℤ) = v := by omega
    rw [if_pos List.head?_cons, List.tail_cons, parseNat_formatNat, Option.bind_some, habs, hv]
  · rename_i hneg
    have hminus := head_formatNat v.natAbs (c := 0x2d) rfl
    have hplus := head_formatNat v.natAbs (c := 0x2b) rfl
    rw [if_neg hminus, if_neg hplus, parseNat_formatNat, Option.bind_some,
      Int.natAbs_of_nonneg (not_lt.mp hneg), hv]

end Decimal
