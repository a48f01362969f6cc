import Mathlib

/-!
# Longest-prefix match over two lists

A routing table is split into two lists of entries, those that lead one way and those that lead the
other. An address follows the longest entry that covers it.

* `Via covers len own other a`: the longest entry that covers `a` is found in `own`;
* `Sends covers len own other a`: and it is found there only;
* **`Laminar.not_both`**: if entries of one length that cover a common address are equal, disjoint
  lists never disagree; `Laminar.sends_iff`.
-/

namespace LongestPrefix

variable {π α : Type*} (covers : π → α → Prop) (len : π → ℕ)

/-- The longest entry that covers `a` is found in `own`. -/
def Via (own other : List π) (a : α) : Prop :=
  ∃ p ∈ own, covers p a ∧ ∀ q ∈ own ++ other, covers q a → len q ≤ len p

/-- The table sends `a` the way of `own`, whatever it does with ties. -/
def Sends (own other : List π) (a : α) : Prop :=
  Via covers len own other a ∧ ¬Via covers len other own a

/-- The entries of the two lists that cover one address and have one length are equal. -/
def Laminar (own other : List π) : Prop :=
  ∀ p ∈ own, ∀ q ∈ other, ∀ a, covers p a → covers q a → len p = len q → p = q

variable {covers len} {own other : List π}

theorem Laminar.symm (h : Laminar covers len own other) : Laminar covers len other own :=
  fun p hp q hq a hpa hqa hlen => (h q hq p hp a hqa hpa hlen.symm).symm

/-- **Disjoint lists never disagree.** -/
theorem Laminar.not_both (h : Laminar covers len own other) (hdisj : ∀ p ∈ own, p ∉ other) {a : α}
    (hown : Via covers len own other a) : ¬Via covers len other own a := by
  rintro ⟨q, hq, hqa, hqmax⟩
  obtain ⟨p, hp, hpa, hpmax⟩ := hown
  have hlen : len p = len q :=
    le_antisymm (hqmax p (List.mem_append_right _ hp) hpa) (hpmax q (List.mem_append_right _ hq) hqa)
  exact hdisj p hp (h p hp q hq a hpa hqa hlen ▸ hq)

theorem Laminar.sends_iff (h : Laminar covers len own other) (hdisj : ∀ p ∈ own, p ∉ other) {a : α} :
    Sends covers len own other a ↔ Via covers len own other a :=
  ⟨And.left, fun hown => ⟨hown, h.not_both hdisj hown⟩⟩

/-- An entry that no covering entry exceeds. -/
theorem via_of_le {a : α} {p : π} (hp : p ∈ own) (hpa : covers p a)
    (hown : ∀ q ∈ own, covers q a → len q ≤ len p)
    (hother : ∀ q ∈ other, covers q a → len q ≤ len p) : Via covers len own other a := by
  refine ⟨p, hp, hpa, fun q hq hqa => ?_⟩
  rcases List.mem_append.mp hq with hq | hq
  · exact hown q hq hqa
  · exact hother q hq hqa

variable (len) in
open Classical in
/-- Some entry of a list that covers `a` is the longest. -/
theorem exists_longest {l : List π} {a : α} (h : ∃ p ∈ l, covers p a) :
    ∃ p ∈ l, covers p a ∧ ∀ q ∈ l, covers q a → len q ≤ len p := by
  obtain ⟨p₀, hp₀, hpa₀⟩ := h
  have hne : (l.toFinset.filter (covers · a)).Nonempty := ⟨p₀, by simp [hp₀, hpa₀]⟩
  obtain ⟨p, hp, hmax⟩ := Finset.exists_max_image _ len hne
  obtain ⟨hp, hpa⟩ := Finset.mem_filter.mp hp
  exact ⟨p, List.mem_toFinset.mp hp, hpa, fun q hq hqa => hmax q (by simp [hq, hqa])⟩

/-- An address that only one of the lists covers. -/
theorem via_of_not_covered {a : α} (hown : ∃ p ∈ own, covers p a)
    (hother : ∀ q ∈ other, ¬covers q a) : Via covers len own other a := by
  obtain ⟨p, hp, hpa, hmax⟩ := exists_longest len hown
  exact via_of_le hp hpa hmax fun q hq hqa => absurd hqa (hother q hq)

end LongestPrefix
