import Mathlib

/-!
# Machines whose steps may be blocked

A machine is a step function `σ → ε → Option σ`: in the state `s` the event `e` leads to another
state, or is not possible. The events of several processes that run side by side form one type; an
interleaving is a list of events.

* `run`: the state after a list of events; `Along C`: each event meets the condition `C` in the
  state in which it happens;
* **`run_inv`**: an invariant that events meeting `C` preserve holds at the end of a run;
  `run_keeps`: the same for an invariant that every event preserves;
* `run_rel`, `along_rel`: a preorder that each step follows relates each state of a run to the last;
* `Simulated`, **`run_simulated`**, `along_simulated`: a machine whose steps are, through a function on
  its states, steps of another one;
* `run_cost`: events that each raise a measure are counted by it.
-/

namespace Machine

variable {σ ε : Type*} (step : σ → ε → Option σ)

/-- The state after a list of events. -/
def run : σ → List ε → Option σ
  | s, [] => some s
  | s, e :: es => (step s e).bind fun s' => run s' es

/-- Each event meets `C` in the state in which it happens. -/
def Along (C : σ → ε → Prop) : σ → List ε → Prop
  | _, [] => True
  | s, e :: es => C s e ∧ ∀ s', step s e = some s' → Along C s' es

instance decidableAlong (C : σ → ε → Prop) [∀ s e, Decidable (C s e)] (s : σ) (es : List ε) :
    Decidable (Along step C s es) :=
  match es with
  | [] => isTrue trivial
  | e :: es =>
    match h : step s e with
    | none => decidable_of_iff (C s e) (by simp [Along, h])
    | some s' =>
      have := decidableAlong C s' es
      decidable_of_iff (C s e ∧ Along step C s' es) (by simp [Along, h])

/-- The last state of a run, for runs that are possible. -/
def last (s : σ) (es : List ε) : σ := (run step s es).getD s

variable {step}

theorem run_eq_last {s : σ} {es : List ε} (h : (run step s es).isSome) :
    run step s es = some (last step s es) := by
  obtain ⟨s', hs'⟩ := Option.isSome_iff_exists.mp h
  rw [last, hs', Option.getD_some]

theorem run_cons_eq_some {s s' : σ} {e : ε} {es : List ε} :
    run step s (e :: es) = some s' ↔ ∃ m, step s e = some m ∧ run step m es = some s' :=
  Option.bind_eq_some_iff

theorem run_append (s : σ) (es fs : List ε) :
    run step s (es ++ fs) = (run step s es).bind fun s' => run step s' fs := by
  induction es generalizing s with
  | nil => rfl
  | cons e es ih => simp only [List.cons_append, run, ih, Option.bind_assoc]

theorem Along.mono {C D : σ → ε → Prop} (hCD : ∀ s e, C s e → D s e) {s : σ} {es : List ε}
    (h : Along step C s es) : Along step D s es := by
  induction es generalizing s with
  | nil => exact trivial
  | cons e es ih => exact ⟨hCD s e h.1, fun s' hs' => ih (h.2 s' hs')⟩

theorem Along.and {C D : σ → ε → Prop} {s : σ} {es : List ε} (hC : Along step C s es)
    (hD : Along step D s es) : Along step (fun m e => C m e ∧ D m e) s es := by
  induction es generalizing s with
  | nil => exact trivial
  | cons e es ih => exact ⟨⟨hC.1, hD.1⟩, fun s' hs' => ih (hC.2 s' hs') (hD.2 s' hs')⟩

/-- Every event of the list meets `C` in every state. -/
theorem along_of_mem {C : σ → ε → Prop} {s : σ} {es : List ε} (hC : ∀ s, ∀ e ∈ es, C s e) :
    Along step C s es := by
  induction es generalizing s with
  | nil => exact trivial
  | cons e es ih =>
    exact ⟨hC s e List.mem_cons_self, fun s' _ =>
      ih fun m e' he' => hC m e' (List.mem_cons_of_mem _ he')⟩

/-- **The invariant rule.** -/
theorem run_inv {I : σ → Prop} {C : σ → ε → Prop}
    (hstep : ∀ s e s', I s → C s e → step s e = some s' → I s') {s s' : σ} {es : List ε} (h : I s)
    (hC : Along step C s es) (hrun : run step s es = some s') : I s' := by
  induction es generalizing s with
  | nil =>
    obtain rfl := Option.some.inj hrun
    exact h
  | cons e es ih =>
    obtain ⟨m, hm, hrun⟩ := run_cons_eq_some.mp hrun
    exact ih (hstep s e m h hC.1 hm) (hC.2 m hm) hrun

/-- The invariant rule for an invariant that every event preserves. -/
theorem run_keeps {I : σ → Prop} (hstep : ∀ s e s', I s → step s e = some s' → I s') {s s' : σ}
    {es : List ε} (h : I s) (hrun : run step s es = some s') : I s' :=
  run_inv (C := fun _ _ => True) (fun s e s' hs _ => hstep s e s' hs) h
    (along_of_mem fun _ _ _ => trivial) hrun

/-- A preorder that each step follows. -/
theorem run_rel {R : σ → σ → Prop} (hrefl : ∀ s, R s s) (htrans : ∀ a b c, R a b → R b c → R a c)
    (hstep : ∀ s e s', step s e = some s' → R s s') {s s' : σ} {es : List ε}
    (hrun : run step s es = some s') : R s s' := by
  induction es generalizing s with
  | nil =>
    obtain rfl := Option.some.inj hrun
    exact hrefl s
  | cons e es ih =>
    obtain ⟨m, hm, hrun⟩ := run_cons_eq_some.mp hrun
    exact htrans s m s' (hstep s e m hm) (ih hrun)

/-- Each state of a run is related to the last one. -/
theorem along_rel {R : σ → σ → Prop} (hrefl : ∀ s, R s s) (htrans : ∀ a b c, R a b → R b c → R a c)
    (hstep : ∀ s e s', step s e = some s' → R s s') {s s' : σ} {es : List ε}
    (hrun : run step s es = some s') : Along step (fun m _ => R m s') s es := by
  induction es generalizing s with
  | nil => exact trivial
  | cons e es ih =>
    refine ⟨run_rel hrefl htrans hstep hrun, fun m hm => ?_⟩
    obtain ⟨m', hm', hrest⟩ := run_cons_eq_some.mp hrun
    obtain rfl : m' = m := Option.some.inj (hm'.symm.trans hm)
    exact ih hrest

section Simulation

variable {τ δ : Type*} (step' : τ → δ → Option τ) (abs : σ → τ) (erase : ε → Option δ)

/-- Seen through `abs`, a step is one of the other machine or changes nothing. -/
def Simulated (s : σ) (e : ε) (s' : σ) : Prop :=
  match erase e with
  | none => abs s' = abs s
  | some a => step' (abs s) a = some (abs s')

variable {step' abs erase} {I : σ → Prop} {s s' : σ} {es : List ε}

/-- **The simulation rule.** -/
theorem run_simulated
    (hstep : ∀ s e s', I s → step s e = some s' → I s' ∧ Simulated step' abs erase s e s') (h : I s)
    (hrun : run step s es = some s') :
    I s' ∧ run step' (abs s) (es.filterMap erase) = some (abs s') := by
  induction es generalizing s with
  | nil =>
    obtain rfl := Option.some.inj hrun
    exact ⟨h, rfl⟩
  | cons e es ih =>
    obtain ⟨m, hm, hrun⟩ := run_cons_eq_some.mp hrun
    obtain ⟨hI, hsim⟩ := hstep s e m h hm
    obtain ⟨hlast, hrest⟩ := ih hI hrun
    unfold Simulated at hsim
    refine ⟨hlast, ?_⟩
    cases he : erase e with
    | none =>
      rw [he] at hsim
      rwa [List.filterMap_cons_none he, ← hsim]
    | some a =>
      rw [he] at hsim
      rw [List.filterMap_cons_some he]
      exact run_cons_eq_some.mpr ⟨abs m, hsim, hrest⟩

/-- What holds along the run holds along the one of the other machine. -/
theorem along_simulated {C : τ → δ → Prop}
    (hstep : ∀ s e s', I s → step s e = some s' → I s' ∧ Simulated step' abs erase s e s') (h : I s)
    (hC : Along step (fun m e => ∀ a, erase e = some a → C (abs m) a) s es)
    (hrun : run step s es = some s') : Along step' C (abs s) (es.filterMap erase) := by
  induction es generalizing s with
  | nil => exact trivial
  | cons e es ih =>
    obtain ⟨m, hm, hrun⟩ := run_cons_eq_some.mp hrun
    obtain ⟨hI, hsim⟩ := hstep s e m h hm
    have hrest := ih hI (hC.2 m hm) hrun
    unfold Simulated at hsim
    cases he : erase e with
    | none =>
      rw [he] at hsim
      rwa [List.filterMap_cons_none he, ← hsim]
    | some a =>
      rw [he] at hsim
      rw [List.filterMap_cons_some he]
      refine ⟨hC.1 a he, fun t ht => ?_⟩
      obtain rfl : abs m = t := Option.some.inj (hsim.symm.trans ht)
      exact hrest

end Simulation

/-- Events are counted by a measure that they raise, as long as `I` holds. -/
theorem run_cost {I : σ → Prop} {μ : σ → ℕ} {w : ε → ℕ}
    (hstep : ∀ s e s', I s → step s e = some s' → I s' ∧ w e + μ s ≤ μ s') {s s' : σ} {es : List ε}
    (h : I s) (hrun : run step s es = some s') : (es.map w).sum + μ s ≤ μ s' := by
  induction es generalizing s with
  | nil =>
    obtain rfl := Option.some.inj hrun
    simp
  | cons e es ih =>
    obtain ⟨m, hm, hrun⟩ := run_cons_eq_some.mp hrun
    obtain ⟨hI, hle⟩ := hstep s e m h hm
    have hrest := ih hI hrun
    rw [List.map_cons, List.sum_cons]
    omega

end Machine
