import Mathlib

/-!
# Properties of every state of a run

A run is read through its histories: the prefixes of the list of operations performed so far.
`Throughout Q l` says that `Q` holds after every prefix of `l`, and `EachStep C l` that every
operation of `l` meets the condition `C` in the history before it.

* `throughout_of_eachStep`: an invariant that operations meeting `C` preserve holds throughout;
* **`throughout_iff_eachStep`**: if, moreover, an operation that does not meet `C` breaks `Q` at
  once, then `Q` holds throughout exactly when every operation meets `C`.
-/

namespace Runs

variable {α : Type*}

/-- `Q` holds after every prefix of `l`, the empty one and `l` itself included. -/
def Throughout (Q : List α → Prop) (l : List α) : Prop := ∀ pre, pre <+: l → Q pre

/-- Every operation of `l` meets `C` in the history before it. -/
def EachStep (C : List α → α → Prop) (l : List α) : Prop := ∀ pre a, pre ++ [a] <+: l → C pre a

theorem eachStep_nil (C : List α → α → Prop) : EachStep C [] := fun pre a hp => by
  simp at hp

theorem eachStep_cons (C : List α → α → Prop) (b : α) (l : List α) :
    EachStep C (b :: l) ↔ C [] b ∧ EachStep (fun pre a => C (b :: pre) a) l := by
  constructor
  · exact fun h => ⟨h [] b (by simp), fun pre a hp => h (b :: pre) a (by simpa using hp)⟩
  · rintro ⟨h0, h⟩ pre a hp
    cases pre with
    | nil =>
      obtain rfl : a = b := by simpa using hp
      exact h0
    | cons c pre =>
      obtain ⟨rfl, hpre⟩ := List.cons_prefix_cons.mp hp
      exact h pre a hpre

theorem eachStep_concat (C : List α → α → Prop) (l : List α) (b : α) :
    EachStep C (l ++ [b]) ↔ EachStep C l ∧ C l b := by
  constructor
  · exact fun h => ⟨fun pre a hp => h pre a (hp.trans (List.prefix_append l [b])),
      h l b List.prefix_rfl⟩
  · rintro ⟨h, hb⟩ pre a hp
    rcases List.prefix_concat_iff.mp hp with heq | hp'
    · obtain ⟨rfl, hab⟩ := List.append_inj' heq rfl
      obtain rfl : a = b := by simpa using hab
      exact hb
    · exact h pre a hp'

/-- **The invariant rule.** -/
theorem throughout_of_eachStep {Inv : List α → Prop} {C : List α → α → Prop} {l : List α}
    (h0 : Inv []) (hs : ∀ pre a, pre ++ [a] <+: l → Inv pre → C pre a → Inv (pre ++ [a]))
    (hC : EachStep C l) : Throughout Inv l := by
  intro pre
  induction pre using List.reverseRecOn with
  | nil => exact fun _ => h0
  | append_singleton pre a ih =>
    intro hp
    exact hs pre a hp (ih ((List.prefix_append pre [a]).trans hp)) (hC pre a hp)

/-- **The exact rule**: steps outside `C` break `Q` at once. -/
theorem throughout_iff_eachStep {Inv Q : List α → Prop} {C : List α → α → Prop} {l : List α}
    (h0 : Inv []) (hs : ∀ pre a, pre ++ [a] <+: l → Inv pre → C pre a → Inv (pre ++ [a]))
    (hQ : ∀ pre, pre <+: l → Inv pre → Q pre)
    (hbad : ∀ pre a, pre ++ [a] <+: l → Inv pre → ¬ C pre a → ¬ Q (pre ++ [a])) :
    Throughout Q l ↔ EachStep C l := by
  constructor
  · intro h
    -- by induction on the prefix: as long as the steps met `C`, the invariant holds before the
    -- next one, so a step outside `C` would break `Q`
    have key : ∀ k, k <+: l → EachStep C k := by
      intro k
      induction k using List.reverseRecOn with
      | nil => exact fun _ => eachStep_nil C
      | append_singleton k b ih =>
        intro hk
        have hkl : k <+: l := (List.prefix_append k [b]).trans hk
        refine (eachStep_concat C k b).mpr ⟨ih hkl, ?_⟩
        by_contra hC
        have hinv := throughout_of_eachStep h0 (fun p c hpc => hs p c (hpc.trans hkl)) (ih hkl)
        exact hbad k b hk (hinv k List.prefix_rfl) hC (h _ hk)
    exact key l List.prefix_rfl
  · intro hC pre hp
    exact hQ pre hp (throughout_of_eachStep h0 hs hC pre hp)

end Runs
