import Mathlib

/-!
# Who holds what

Each user of a list holds at most one resource. `Accounted held p` says that what is held is exactly
what is in use, each resource by one user only.

* `filterMap_set_same`, `perm_filterMap_set_take`, `perm_filterMap_set_drop`: what is held when one
  user of a list changes;
* **`Accounted.take`**, **`Accounted.drop`**: a user takes a resource that was not in use, or gives
  one back;
* `Accounted.none`: without users nothing is in use.
-/

namespace Holders

variable {σ ρ : Type*}

/-! ## One user changes -/

section Change

variable {f : σ → Option ρ} {l : List σ} {i : ℕ} {c c' : σ}

theorem filterMap_set_same (hi : l[i]? = some c) (h : f c' = f c) :
    (l.set i c').filterMap f = l.filterMap f := by
  induction l generalizing i with
  | nil => simp at hi
  | cons a l ih =>
    cases i with
    | zero =>
      obtain rfl : a = c := by simpa using hi
      simp only [List.set_cons_zero, List.filterMap_cons, h]
    | succ i =>
      simp only [List.set_cons_succ, List.filterMap_cons, ih (by simpa using hi)]

theorem perm_filterMap_set_take {x : ρ} (hi : l[i]? = some c) (hc : f c = none)
    (hc' : f c' = some x) : ((l.set i c').filterMap f).Perm (x :: l.filterMap f) := by
  induction l generalizing i with
  | nil => simp at hi
  | cons a l ih =>
    cases i with
    | zero =>
      obtain rfl : a = c := by simpa using hi
      rw [List.set_cons_zero, List.filterMap_cons_some hc', List.filterMap_cons_none hc]
    | succ i =>
      have hrest := ih (i := i) (by simpa using hi)
      rw [List.set_cons_succ]
      cases ha : f a with
      | none => rwa [List.filterMap_cons_none ha, List.filterMap_cons_none ha]
      | some y =>
        rw [List.filterMap_cons_some ha, List.filterMap_cons_some ha]
        exact (hrest.cons y).trans (List.Perm.swap x y _)

theorem perm_filterMap_set_drop {x : ρ} (hi : l[i]? = some c) (hc : f c = some x)
    (hc' : f c' = none) : (l.filterMap f).Perm (x :: (l.set i c').filterMap f) := by
  obtain ⟨hlt, rfl⟩ := List.getElem?_eq_some_iff.mp hi
  have hback : (l.set i c')[i]? = some c' := List.getElem?_set_self hlt
  have htake := perm_filterMap_set_take hback hc' hc
  rwa [List.set_set, List.set_getElem_self hlt] at htake

end Change

/-! ## Accounts -/

/-- What is held is what is in use, and nothing is held twice. -/
structure Accounted (held : List ρ) (p : ρ → Prop) : Prop where
  nodup : held.Nodup
  mem_iff : ∀ x, x ∈ held ↔ p x

namespace Accounted

variable {held held' : List ρ} {p q : ρ → Prop} {x : ρ}

/-- **A resource is taken** that was not in use. -/
theorem take (h : Accounted held p) (hperm : held'.Perm (x :: held)) (hx : ¬p x)
    (hq : ∀ y, q y ↔ y = x ∨ p y) : Accounted held' q where
  nodup := hperm.nodup_iff.mpr <|
    List.nodup_cons.mpr ⟨fun hmem => hx ((h.mem_iff x).mp hmem), h.nodup⟩
  mem_iff y := by rw [hperm.mem_iff, List.mem_cons, h.mem_iff, hq]

/-- **A resource is given back.** -/
theorem drop (h : Accounted held p) (hperm : held.Perm (x :: held')) (hq : ∀ y, q y ↔ y ≠ x ∧ p y) :
    Accounted held' q := by
  obtain ⟨hx, hnodup⟩ := List.nodup_cons.mp (hperm.nodup_iff.mp h.nodup)
  refine ⟨hnodup, fun y => ?_⟩
  rw [hq, ← h.mem_iff, hperm.mem_iff, List.mem_cons]
  constructor
  · intro hy
    exact ⟨fun hyx => hx (hyx ▸ hy), .inr hy⟩
  · rintro ⟨hne, rfl | hy⟩
    · exact absurd rfl hne
    · exact hy

theorem congr (h : Accounted held p) (hq : ∀ y, q y ↔ p y) : Accounted held q :=
  ⟨h.nodup, fun y => (h.mem_iff y).trans (hq y).symm⟩

/-- Users that hold nothing leave nothing in use. -/
theorem none {f : σ → Option ρ} {l : List σ} (h : Accounted (l.filterMap f) p)
    (hnone : ∀ c ∈ l, f c = none) (x : ρ) : ¬p x := by
  rw [← h.mem_iff, List.mem_filterMap]
  rintro ⟨c, hc, hx⟩
  rw [hnone c hc] at hx
  cases hx

/-- A resource in use has one user. -/
theorem unique {f : σ → Option ρ} {l : List σ} (h : Accounted (l.filterMap f) p) {i j : ℕ}
    {c d : σ} (hi : l[i]? = some c) (hj : l[j]? = some d) (hc : f c = some x) (hd : f d = some x) :
    i = j := by
  have hpair := List.pairwise_iff_getElem.mp (List.pairwise_filterMap.mp h.nodup)
  obtain ⟨hilt, rfl⟩ := List.getElem?_eq_some_iff.mp hi
  obtain ⟨hjlt, rfl⟩ := List.getElem?_eq_some_iff.mp hj
  rcases lt_trichotomy i j with hlt | rfl | hlt
  · exact absurd rfl (hpair i j hilt hjlt hlt x hc x hd)
  · rfl
  · exact absurd rfl (hpair j i hjlt hilt hlt x hd x hc)

end Accounted

end Holders
