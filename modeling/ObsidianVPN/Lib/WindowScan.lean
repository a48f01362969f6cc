import Mathlib

/-!
# Scanning a stream with a sliding window

A reader holds a window of fixed width over a stream. While the window is not a hit it drops the
first element and reads one more, until it has read `limit` elements.

* `scan`: the reader; `windowAt s w i`: the window at offset `i` of the stream `s`;
* `scan_windowAt`: the scan passes over windows that are not hits;
* **`scan_found`**: the first hit is found, if the limit allows to read it;
* **`scan_exhausted`**: if it does not, the reader stops after `limit` elements;
* `hit_of_scan_found`: what is found is a hit in the stream.
-/

namespace WindowScan

variable {α : Type*}

/-- How a scan ends. -/
inductive Outcome (α : Type*) where
  /-- A hit, and what follows it. -/
  | found (window rest : List α)
  /-- Too many elements have been read. -/
  | exhausted (scanned : ℕ) (rest : List α)
  | ended

/-- The scan with the window `buf`, after `scanned` elements. -/
def scan (hit : List α → Prop) [DecidablePred hit] (limit : ℕ) (buf : List α) (scanned : ℕ)
    (stream : List α) : Outcome α :=
  if hit buf then .found buf stream
  else if limit ≤ scanned then .exhausted scanned stream
  else
    match stream with
    | [] => .ended
    | a :: rest => scan hit limit (buf.tail ++ [a]) (scanned + 1) rest

def windowAt (s : List α) (w i : ℕ) : List α := (s.drop i).take w

/-- The next window drops an element and adds one. -/
theorem windowAt_succ {s : List α} {w i : ℕ} (hw : 0 < w) {a : α} {rest : List α}
    (h : s.drop (i + w) = a :: rest) : windowAt s w (i + 1) = (windowAt s w i).tail ++ [a] := by
  obtain ⟨n, rfl⟩ : ∃ n, w = n + 1 := ⟨w - 1, by omega⟩
  have hlt : i + (n + 1) < s.length := by
    by_contra hge
    rw [List.drop_eq_nil_of_le (by omega)] at h
    exact absurd h (by simp)
  have ha : s[i + (n + 1)] = a := by
    rw [List.drop_eq_getElem_cons hlt] at h
    exact (List.cons.inj h).1
  rw [windowAt, windowAt, List.drop_eq_getElem_cons (by omega : i < s.length), List.take_succ_cons,
    List.tail_cons, List.take_succ_eq_append_getElem (by rw [List.length_drop]; omega),
    List.getElem_drop]
  congr 2
  rw [← ha]
  congr 1
  omega

/-- A window that ends before the end does not see what follows. -/
theorem windowAt_append {s : List α} {w i : ℕ} (h : i + w ≤ s.length) (rest : List α) :
    windowAt (s ++ rest) w i = windowAt s w i := by
  rw [windowAt, windowAt, List.drop_append_of_le_length (by omega),
    List.take_append_of_le_length (by rw [List.length_drop]; omega)]

variable {hit : List α → Prop} [DecidablePred hit] {limit : ℕ} {s : List α} {w : ℕ}

/-- One step over a window that is not a hit. -/
theorem scan_step (hw : 0 < w) {i : ℕ} (hno : ¬ hit (windowAt s w i)) (hlimit : i + w < limit)
    (hlen : i + w < s.length) :
    scan hit limit (windowAt s w i) (i + w) (s.drop (i + w)) =
      scan hit limit (windowAt s w (i + 1)) (i + 1 + w) (s.drop (i + 1 + w)) := by
  obtain ⟨a, rest, hrest⟩ : ∃ a rest, s.drop (i + w) = a :: rest :=
    ⟨_, _, List.drop_eq_getElem_cons hlen⟩
  have hnext : s.drop (i + 1 + w) = rest := by
    rw [show i + 1 + w = (i + w) + 1 by omega, ← List.tail_drop, hrest, List.tail_cons]
  rw [hrest, scan, if_neg hno, if_neg (by omega), hnext, windowAt_succ hw hrest,
    show i + 1 + w = i + w + 1 by omega]

/-- **The scan passes over windows that are not hits.** -/
theorem scan_windowAt (hw : 0 < w) {j : ℕ} (hno : ∀ i < j, ¬ hit (windowAt s w i))
    (hlimit : j + w ≤ limit) (hlen : j + w ≤ s.length) :
    scan hit limit (windowAt s w 0) w (s.drop w) =
      scan hit limit (windowAt s w j) (j + w) (s.drop (j + w)) := by
  induction j with
  | zero => rw [Nat.zero_add]
  | succ j ih =>
    rw [ih (fun i hi => hno i (by omega)) (by omega) (by omega)]
    exact scan_step hw (hno j (by omega)) (by omega) (by omega)

/-- **The first hit is found** if it ends within the limit. -/
theorem scan_found (hw : 0 < w) {j : ℕ} (hno : ∀ i < j, ¬ hit (windowAt s w i))
    (hhit : hit (windowAt s w j)) (hlimit : j + w ≤ limit) (hlen : j + w ≤ s.length) :
    scan hit limit (windowAt s w 0) w (s.drop w) =
      .found (windowAt s w j) (s.drop (j + w)) := by
  rw [scan_windowAt hw hno hlimit hlen, scan.eq_def, if_pos hhit]

/-- **The scan stops at the limit** if there is no hit before. -/
theorem scan_exhausted (hw : 0 < w) (hwl : w ≤ limit)
    (hno : ∀ i, i + w ≤ limit → ¬ hit (windowAt s w i)) (hlen : limit ≤ s.length) :
    scan hit limit (windowAt s w 0) w (s.drop w) = .exhausted limit (s.drop limit) := by
  obtain ⟨j, rfl⟩ : ∃ j, limit = j + w := ⟨limit - w, by omega⟩
  rw [scan_windowAt hw (fun i hi => hno i (by omega)) le_rfl hlen, scan.eq_def,
    if_neg (hno j le_rfl), if_pos le_rfl]

/-- What a scan finds is a window of the stream, and a hit. -/
theorem hit_of_scan_found {buf stream window rest : List α} {scanned : ℕ} (hbuf : buf ≠ [])
    (h : scan hit limit buf scanned stream = .found window rest) :
    ∃ i, i + buf.length ≤ (buf ++ stream).length ∧
      window = windowAt (buf ++ stream) buf.length i ∧ hit window := by
  induction stream generalizing buf scanned with
  | nil =>
    rw [scan] at h
    split at h
    · rename_i hhit
      cases h
      exact ⟨0, by simp, by simp [windowAt], hhit⟩
    · split at h <;> cases h
  | cons a stream ih =>
    rw [scan] at h
    split at h
    · rename_i hhit
      cases h
      exact ⟨0, by simp, by simp [windowAt], hhit⟩
    · split at h
      · cases h
      · obtain ⟨i, hi, hwindow, hhit⟩ := ih (by simp) h
        obtain ⟨b, buf, rfl⟩ := List.exists_cons_of_ne_nil hbuf
        -- the next buffer and the rest are the tail of this one and the rest
        simp only [List.tail_cons, List.append_assoc, List.singleton_append, List.length_append,
          List.length_cons, List.length_nil, Nat.zero_add] at hi hwindow
        refine ⟨i + 1, ?_, ?_, hhit⟩
        · simp only [List.cons_append, List.length_cons, List.length_append]
          omega
        · rw [hwindow]
          rfl

end WindowScan
