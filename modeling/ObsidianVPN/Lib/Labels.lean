import ObsidianVPN.Lib.Bytes

/-!
# Dotted names

The labels of a name are what stands between its dots; a text without dots is one label, and the
empty text is one empty label.

* `labels`, `join_labels`: splitting a name and joining it again; `labels_append`, `join_append`;
* **`labels_suffix_iff`**: the labels of one name are the last ones of another if it is equal to it or
  a suffix of it behind a dot.
-/

namespace Labels

open ByteStr

/-- The labels of a name, between its dots. -/
def labels (s : Bytes) : List Bytes := s.splitOn 0x2e

theorem join_labels (s : Bytes) : [0x2e].intercalate (labels s) = s := List.intercalate_splitOn _

theorem labels_append (a b : Bytes) : labels (a ++ 0x2e :: b) = labels a ++ labels b :=
  List.splitOn_append_cons_self a b

theorem labels_injective {a b : Bytes} (h : labels a = labels b) : a = b := by
  rw [← join_labels a, h, join_labels]

theorem labels_ne_nil (s : Bytes) : labels s ≠ [] := List.splitOn_ne_nil _ _

/-- A text without dots is one label. -/
theorem labels_of_not_mem {s : Bytes} (h : 0x2e ∉ s) : labels s = [s] := by
  have hsplit : ([0x2e].intercalate [s]).splitOn 0x2e = [s] :=
    List.splitOn_intercalate 0x2e (by simpa using h) (by simp)
  rwa [List.intercalate_singleton] at hsplit

theorem join_append {l m : List Bytes} (hl : l ≠ []) (hm : m ≠ []) :
    [0x2e].intercalate (l ++ m) = [0x2e].intercalate l ++ 0x2e :: [0x2e].intercalate m := by
  induction l with
  | nil => exact absurd rfl hl
  | cons a l ih =>
    cases l with
    | nil =>
      obtain ⟨b, m, rfl⟩ := List.exists_cons_of_ne_nil hm
      simp [List.intercalate]
    | cons b l =>
      have hrest := ih (by simp)
      simp only [List.cons_append, List.intercalate_cons_cons] at hrest ⊢
      rw [hrest]
      simp

/-- **The labels of `r` are the last ones of `d` if `d` is `r` or ends in a dot and `r`.** -/
theorem labels_suffix_iff (r d : Bytes) : labels r <:+ labels d ↔ d = r ∨ 0x2e :: r <:+ d := by
  constructor
  · rintro ⟨l, hl⟩
    by_cases hnil : l = []
    · rw [hnil, List.nil_append] at hl
      exact .inl (labels_injective hl).symm
    · refine .inr ⟨[0x2e].intercalate l, ?_⟩
      rw [← join_labels d, ← hl, join_append hnil (labels_ne_nil r), join_labels]
  · rintro (rfl | ⟨a, rfl⟩)
    · exact List.suffix_rfl
    · rw [labels_append]
      exact List.suffix_append _ _

end Labels
