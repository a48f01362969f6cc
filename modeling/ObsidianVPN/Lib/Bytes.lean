import Mathlib

/-!
# Byte strings

Byte strings are lists of `UInt8`. This file has the operations every wire format uses:

* `slice`: the bytes of a half-open range given by offset and length;
* `putBE`, `getBE`, `putLE`: fixed-width integers, big and little endian, reduced modulo
  `256 ^ k`; `getBE_putBE` and `putLE_injOn` are the round trips;
* `xorBytes`: bytewise exclusive or; **`xorBytes_xorBytes`**: masking twice is the identity;
* `fill`: `n` bytes of a byte source;
* `readFull`: the next `n` bytes of a stream;
* `wrap64`, `abs64`: the two's-complement 64-bit reading of an integer.
-/

namespace ByteStr

abbrev Bytes := List UInt8

instance (b : Bytes) (l : List Bytes) : Decidable (b ∈ l) := List.instDecidableMemOfLawfulBEq b l

/-- `b[off : off + n]`. -/
def slice (b : Bytes) (off n : ℕ) : Bytes := (b.drop off).take n

theorem length_slice {b : Bytes} {off n : ℕ} (h : off + n ≤ b.length) :
    (slice b off n).length = n := by
  simp only [slice, List.length_take, List.length_drop]
  omega

/-- A slice that starts at the second part of an append. -/
theorem slice_append_right (a b : Bytes) (off n : ℕ) (h : off = a.length) :
    slice (a ++ b) off n = b.take n := by
  subst h; simp [slice]

/-- A slice within the first part of an append. -/
theorem slice_append_left (a b : Bytes) {off n : ℕ} (h : off + n ≤ a.length) :
    slice (a ++ b) off n = slice a off n := by
  have hn : n ≤ (a.drop off).length := by
    rw [List.length_drop]
    omega
  rw [slice, List.drop_append_of_le_length (by omega), List.take_append_of_le_length hn, slice]

/-- A slice of the second part of an append. -/
theorem slice_append_add (a b : Bytes) {n : ℕ} (ha : a.length = n) (off k : ℕ) :
    slice (a ++ b) (n + off) k = slice b off k := by
  subst ha
  rw [slice, slice, ← List.drop_drop, List.drop_left]

theorem slice_zero_append (a b : Bytes) (n : ℕ) (h : n = a.length) : slice (a ++ b) 0 n = a := by
  subst h; simp [slice]

/-- The middle part of three. -/
theorem slice_middle (a m b : Bytes) {off n : ℕ} (ho : off = a.length) (hn : n = m.length) :
    slice (a ++ (m ++ b)) off n = m := by
  rw [slice_append_right _ _ _ _ ho, hn, List.take_left]

/-! ## Fixed-width integers -/

/-- The `k` big-endian bytes of `n`, reduced modulo `256 ^ k`. -/
def putBE : ℕ → ℕ → Bytes
  | 0, _ => []
  | k + 1, n => putBE k (n / 256) ++ [UInt8.ofNat n]

/-- The big-endian value of a byte string. -/
def getBE (b : Bytes) : ℕ := b.foldl (fun a x => a * 256 + x.toNat) 0

/-- The `k` little-endian bytes of `n`, reduced modulo `256 ^ k`. -/
def putLE : ℕ → ℕ → Bytes
  | 0, _ => []
  | k + 1, n => UInt8.ofNat n :: putLE k (n / 256)

@[simp] theorem length_putBE (k n : ℕ) : (putBE k n).length = k := by
  induction k generalizing n with
  | zero => rfl
  | succ k ih => simp [putBE, ih]

@[simp] theorem length_putLE (k n : ℕ) : (putLE k n).length = k := by
  induction k generalizing n with
  | zero => rfl
  | succ k ih => simp [putLE, ih]

theorem getBE_append_singleton (b : Bytes) (x : UInt8) :
    getBE (b ++ [x]) = getBE b * 256 + x.toNat := by
  simp [getBE, List.foldl_append]

/-- **Reading back a big-endian integer.** -/
theorem getBE_putBE (k n : ℕ) : getBE (putBE k n) = n % 256 ^ k := by
  induction k generalizing n with
  | zero => simp [putBE, getBE, Nat.mod_one]
  | succ k ih =>
    rw [putBE, getBE_append_singleton, ih, UInt8.toNat_ofNat', pow_succ' 256 k, Nat.mod_mul]
    omega

theorem getBE_putBE_of_lt {k n : ℕ} (h : n < 256 ^ k) : getBE (putBE k n) = n := by
  rw [getBE_putBE, Nat.mod_eq_of_lt h]

theorem getBE_lt (b : Bytes) : getBE b < 256 ^ b.length := by
  induction b using List.reverseRecOn with
  | nil => simp [getBE]
  | append_singleton b x ih =>
    rw [getBE_append_singleton, List.length_append, List.length_singleton, pow_succ]
    have := x.toNat_lt
    omega

theorem getBE_append (a b : Bytes) : getBE (a ++ b) = getBE a * 256 ^ b.length + getBE b := by
  induction b using List.reverseRecOn with
  | nil => simp [getBE]
  | append_singleton b x ih =>
    rw [← List.append_assoc, getBE_append_singleton, ih, getBE_append_singleton, List.length_append,
      List.length_singleton, pow_succ]
    ring

/-- Byte strings of one length are determined by their values. -/
theorem getBE_injOn {a b : Bytes} (hlen : a.length = b.length) (h : getBE a = getBE b) : a = b := by
  induction a using List.reverseRecOn generalizing b with
  | nil => exact (List.eq_nil_of_length_eq_zero hlen.symm).symm
  | append_singleton a x ih =>
    rcases List.eq_nil_or_concat' b with rfl | ⟨b, y, rfl⟩
    · simp at hlen
    · rw [getBE_append_singleton, getBE_append_singleton] at h
      have hx := x.toNat_lt
      have hy := y.toNat_lt
      have hlast : x = y := UInt8.toNat_inj.mp (by omega)
      rw [ih (by simpa using hlen) (by omega), hlast]

theorem getBE_slice_lt (b : Bytes) (off k : ℕ) : getBE (slice b off k) < 256 ^ k :=
  (getBE_lt _).trans_le (Nat.pow_le_pow_right (by norm_num) (List.length_take_le k _))

theorem putLE_injOn {k m n : ℕ} (hm : m < 256 ^ k) (hn : n < 256 ^ k)
    (h : putLE k m = putLE k n) : m = n := by
  induction k generalizing m n with
  | zero => rw [pow_zero] at hm hn; omega
  | succ k ih =>
    simp only [putLE, List.cons.injEq] at h
    have hq : m / 256 = n / 256 :=
      ih (Nat.div_lt_of_lt_mul (by rwa [pow_succ'] at hm))
        (Nat.div_lt_of_lt_mul (by rwa [pow_succ'] at hn)) h.2
    have hr : m % 256 = n % 256 := by
      have := congrArg UInt8.toNat h.1
      simpa [UInt8.toNat_ofNat'] using this
    omega

/-! ## Masks -/

/-- Bytewise exclusive or, as long as the shorter argument. -/
def xorBytes (a b : Bytes) : Bytes := List.zipWith (· ^^^ ·) a b

@[simp] theorem length_xorBytes (a b : Bytes) : (xorBytes a b).length = min a.length b.length := by
  simp [xorBytes]

theorem xorBytes_comm (a b : Bytes) : xorBytes a b = xorBytes b a :=
  List.zipWith_comm_of_comm fun x y => UInt8.xor_comm x y

/-- **Masking twice is the identity.** -/
theorem xorBytes_xorBytes (a m : Bytes) (h : a.length ≤ m.length) :
    xorBytes (xorBytes a m) m = a := by
  induction a generalizing m with
  | nil => simp [xorBytes]
  | cons x a ih =>
    cases m with
    | nil => simp at h
    | cons y m =>
      have := ih m (by simpa using h)
      simp only [xorBytes, List.zipWith_cons_cons, List.cons.injEq] at this ⊢
      exact ⟨by rw [UInt8.xor_assoc, UInt8.xor_self, UInt8.xor_zero], this⟩

theorem xorBytes_injective (m : Bytes) {a b : Bytes} (ha : a.length ≤ m.length)
    (hb : b.length ≤ m.length) (h : xorBytes a m = xorBytes b m) : a = b := by
  rw [← xorBytes_xorBytes a m ha, h, xorBytes_xorBytes b m hb]

theorem xor_xor_cancel_right (n m : ℕ) : (n ^^^ m) ^^^ m = n := by
  rw [Nat.xor_assoc, Nat.xor_self, Nat.xor_zero]

/-! ## Byte sources -/

/-- The first `n` bytes of a byte source. -/
def fill (n : ℕ) (src : ℕ → UInt8) : Bytes := (List.range n).map src

@[simp] theorem length_fill (n : ℕ) (src : ℕ → UInt8) : (fill n src).length = n := by
  simp [fill]

/-! ## Streams -/

/-- `io.ReadFull` of `n` bytes: the bytes or the error, and what is left to read. -/
def readFull (n : ℕ) (stream : Bytes) : Except String Bytes × Bytes :=
  if n ≤ stream.length then (.ok (stream.take n), stream.drop n)
  else (.error (if stream = [] then "EOF" else "unexpected EOF"), [])

theorem readFull_of_le {n : ℕ} {stream : Bytes} (h : n ≤ stream.length) :
    readFull n stream = (.ok (stream.take n), stream.drop n) := if_pos h

theorem readFull_append {n : ℕ} (a b : Bytes) (h : n = a.length) :
    readFull n (a ++ b) = (.ok a, b) := by
  subst h
  rw [readFull_of_le (by simp), List.take_left, List.drop_left]

/-! ## Signed 64-bit readings -/

/-- The signed 64-bit value of an integer: conversions and arithmetic wrap around. -/
def wrap64 (x : ℤ) : ℤ := Int.bmod x (2 ^ 64)

/-- The 64-bit absolute value; the least integer is its own absolute value. -/
def abs64 (x : ℤ) : ℤ := if x < 0 then wrap64 (-x) else x

theorem wrap64_of_bounds {x : ℤ} (h₁ : -2 ^ 63 ≤ x) (h₂ : x < 2 ^ 63) : wrap64 x = x := by
  unfold wrap64
  rw [Int.bmod_eq_of_le] <;> omega

/-- Past the largest integer the values start again at the least one. -/
theorem wrap64_of_ge {x : ℤ} (h₁ : 2 ^ 63 ≤ x) (h₂ : x < 2 ^ 64) : wrap64 x = x - 2 ^ 64 := by
  rw [wrap64, Int.bmod_def, if_neg] <;> omega

theorem wrap64_emod (x : ℤ) : wrap64 (x % 2 ^ 64) = wrap64 x := by
  unfold wrap64
  exact_mod_cast Int.emod_bmod x (2 ^ 64)

/-! ## Clocks -/

/-- Nanoseconds in a second. -/
def second : ℕ := 10 ^ 9

/-- The Unix time of an instant given in nanoseconds. -/
def unix (now : ℕ) : ℤ := now / second

/-- Instants at most `n` seconds apart have Unix times at most `n` apart. -/
theorem unix_sub_le {t t' n : ℕ} (h : t ≤ t' + n * second) : unix t - unix t' ≤ n := by
  have hdiv : t / second ≤ t' / second + n := by
    rw [← Nat.add_mul_div_right _ _ (by decide : 0 < second)]
    exact Nat.div_le_div_right h
  unfold unix
  omega

end ByteStr
