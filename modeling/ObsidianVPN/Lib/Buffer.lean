import ObsidianVPN.Lib.Checksum

/-!
# Checked access to a buffer

Reading and writing at an offset of a buffer; `none` is an access out of range.

* `readAt`, `writeAt`: a slice of the buffer read and overwritten; `appendAt`: an `append` that
  moves to other memory when the buffer is too small;
* `copyAt`: a `copy` to a part of the buffer; `copyAt_end`, `copyAt_replicate`;
* `readAt_middle`, `writeAt_middle`, `appendAt_middle`: an access to the middle of three parts;
  `slice_counted`: the middle part is a string with its length in front of it;
* `patch_append`, `patch_append_add`: bytes written into one of two parts; `patch_append_slice`.
-/

namespace Buffer

open ByteStr Checksum

def readAt (b : Bytes) (off n : ℕ) : Option Bytes :=
  if off + n ≤ b.length then some (slice b off n) else none

def writeAt (b : Bytes) (off : ℕ) (v : Bytes) : Option Bytes :=
  if off + v.length ≤ b.length then some (patch b off v) else none

/-- `append(b[off:off], v...)`, as far as the memory of `b` sees it. -/
def appendAt (b : Bytes) (off : ℕ) (v : Bytes) : Option Bytes :=
  if off ≤ b.length then some (if off + v.length ≤ b.length then patch b off v else b) else none

/-- `copy(b[lo:hi], v)`. -/
def copyAt (b : Bytes) (lo hi : ℕ) (v : Bytes) : Option Bytes :=
  if lo ≤ hi ∧ hi ≤ b.length then some (patch b lo (v.take (hi - lo))) else none

theorem readAt_of_le {b : Bytes} {off n : ℕ} (h : off + n ≤ b.length) :
    readAt b off n = some (slice b off n) := if_pos h

theorem readAt_eq_some_iff {b v : Bytes} {off n : ℕ} :
    readAt b off n = some v ↔ off + n ≤ b.length ∧ slice b off n = v := by
  unfold readAt
  split
  · rename_i h
    simp [h]
  · rename_i h
    simp [h]

theorem getD_slice (b : Bytes) {off n i : ℕ} (h : i < n) :
    (slice b off n).getD i 0 = b.getD (off + i) 0 := by
  simp [slice, List.getD_eq_getElem?_getD, h]

theorem getElem?_of_lt {b : Bytes} {i : ℕ} (h : i < b.length) : b[i]? = some (b.getD i 0) := by
  rw [List.getElem?_eq_getElem h, List.getD_eq_getElem _ _ h]

theorem slice_isInfix (b : Bytes) (off n : ℕ) : slice b off n <:+: b :=
  (List.take_prefix _ _).isInfix.trans (List.drop_suffix _ _).isInfix

section Middle

variable {a m b v : Bytes} {off n : ℕ}

theorem patch_middle (ho : off = a.length) (hm : m.length = v.length) :
    patch (a ++ (m ++ b)) off v = a ++ (v ++ b) := by
  have hdrop : (a ++ (m ++ b)).drop (off + v.length) = b := by
    rw [← List.append_assoc]
    exact List.drop_left' (by rw [List.length_append]; omega)
  rw [patch, hdrop, List.take_left' ho.symm]

theorem readAt_middle (ho : off = a.length) (hn : n = m.length) :
    readAt (a ++ (m ++ b)) off n = some m := by
  rw [readAt, if_pos (by simp only [List.length_append]; omega), slice_middle a m b ho hn]

theorem readAt_start (hn : n = m.length) : readAt (m ++ b) 0 n = some m :=
  readAt_middle (a := []) rfl hn

theorem readAt_none (h : b.length < off + n) : readAt b off n = none := if_neg (by omega)

theorem writeAt_middle (ho : off = a.length) (hm : m.length = v.length) :
    writeAt (a ++ (m ++ b)) off v = some (a ++ (v ++ b)) := by
  rw [writeAt, if_pos (by simp only [List.length_append]; omega), patch_middle ho hm]

theorem writeAt_start (hm : m.length = v.length) : writeAt (m ++ b) 0 v = some (v ++ b) :=
  writeAt_middle (a := []) rfl hm

theorem appendAt_middle (ho : off = a.length) (hm : m.length = v.length) :
    appendAt (a ++ (m ++ b)) off v = some (a ++ (v ++ b)) := by
  rw [appendAt, if_pos (by simp only [List.length_append]; omega),
    if_pos (by simp only [List.length_append]; omega), patch_middle ho hm]

/-- Without room for the result the buffer keeps its bytes. -/
theorem appendAt_short (ho : off = a.length) (hv : b.length < v.length) :
    appendAt (a ++ b) off v = some (a ++ b) := by
  rw [appendAt, if_pos (by simp only [List.length_append]; omega),
    if_neg (by simp only [List.length_append]; omega)]

/-- An integer in the middle of three parts. -/
theorem getBE_slice_middle {a b : Bytes} {off k n : ℕ} (ho : off = a.length) (hn : n < 256 ^ k) :
    getBE (slice (a ++ (putBE k n ++ b)) off k) = n := by
  rw [slice_middle a (putBE k n) b ho (length_putBE k n).symm, getBE_putBE_of_lt hn]

/-- A string with its length in front of it, in the middle of a buffer. -/
theorem slice_counted {buf a v b : Bytes} {off k : ℕ} (h : buf = a ++ (putBE k v.length ++ (v ++ b)))
    (ho : off = a.length) (hv : v.length < 256 ^ k) :
    getBE (slice buf off k) = v.length ∧ slice buf (off + k) v.length = v ∧
      buf.length = off + k + v.length + b.length := by
  subst h ho
  refine ⟨getBE_slice_middle rfl hv, ?_, ?_⟩
  · rw [← List.append_assoc a]
    exact slice_middle _ _ _ (by rw [List.length_append, length_putBE]) rfl
  · simp only [List.length_append, length_putBE]
    omega

/-- A byte in the middle of three parts. -/
theorem getD_middle {a b : Bytes} {off n : ℕ} (ho : off = a.length) (hn : n < 256) :
    ((a ++ (putBE 1 n ++ b)).getD off 0).toNat = n := by
  have hbyte : (a ++ (putBE 1 n ++ b)).getD off 0 = UInt8.ofNat n := by
    rw [ho, List.getD_append_right _ _ _ _ le_rfl, Nat.sub_self]
    rfl
  rw [hbyte, UInt8.toNat_ofNat', Nat.mod_eq_of_lt hn]

end Middle

/-- A copy that fills the second of two parts. -/
theorem copyAt_end {a m v : Bytes} {lo hi : ℕ} (hlo : lo = a.length) (hhi : hi = (a ++ m).length)
    (hm : m.length = v.length) : copyAt (a ++ m) lo hi v = some (a ++ v) := by
  rw [List.length_append] at hhi
  have hpatch := patch_middle (b := []) hlo hm
  rw [List.append_nil, List.append_nil] at hpatch
  rw [copyAt, if_pos (by rw [List.length_append]; omega),
    List.take_of_length_le (by omega), hpatch]

/-- A copy to the start of a buffer of zeros. -/
theorem copyAt_replicate {n k : ℕ} {v : Bytes} (hv : v.length = k) (h : k ≤ n) :
    copyAt (List.replicate n 0) 0 k v = some (v ++ List.replicate (n - v.length) 0) := by
  rw [copyAt, if_pos ⟨Nat.zero_le k, by rwa [List.length_replicate]⟩,
    List.take_of_length_le (by omega), patch, List.take_zero, List.nil_append, List.drop_replicate,
    Nat.zero_add]

/-- What lies behind the bytes written does not matter. -/
theorem patch_append {a v : Bytes} {off : ℕ} (b : Bytes) (h : off + v.length ≤ a.length) :
    patch (a ++ b) off v = patch a off v ++ b := by
  rw [patch, patch, List.take_append_of_le_length (by omega), List.drop_append_of_le_length h,
    List.append_assoc, List.append_assoc]

theorem patch_append_add (a b v : Bytes) {n : ℕ} (ha : a.length = n) (off : ℕ) :
    patch (a ++ b) (n + off) v = a ++ patch b off v := by
  subst ha
  rw [patch, patch, List.take_length_add_append, Nat.add_assoc, List.drop_length_add_append,
    List.append_assoc]

/-- Bytes written back to their own place change nothing. -/
theorem patch_append_slice {b v : Bytes} {off k : ℕ} (h : off + v.length + k ≤ b.length) :
    patch b off (v ++ slice b (off + v.length) k) = patch b off v := by
  have hdrop : b.drop (off + (v.length + k)) = (b.drop (off + v.length)).drop k := by
    rw [List.drop_drop, Nat.add_assoc]
  rw [patch, List.length_append, length_slice h, List.append_assoc, hdrop, slice,
    List.take_append_drop, patch]

end Buffer
