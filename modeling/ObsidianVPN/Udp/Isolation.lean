import ObsidianVPN.Lib.Runs
import ObsidianVPN.Udp.Mux

/-!
# Isolation of UDP sessions

Tags are four bytes of a session id, so two sessions may have the same one, and the table is
written and cleared without a look at whose entry it is.

* `Reachable`: every open session is the one the table gives for its current tag;
* `Spares`: an operation writes and removes no current tag of another open session;
* `reachable_step`, `not_reachable_step`: an operation keeps `Reachable` exactly when it is sparing;
* **`reachable_throughout_iff`**: all open sessions stay reachable in a run exactly when every
  operation of the run is sparing.
-/

namespace ObsidianVPN.Udp

/-- The session `i` is open and has the given state. -/
def UDPMux.Open (m : UDPMux) (i : ℕ) (s : UDPSession) : Prop :=
  m.sessions[i]? = some s ∧ s.closed = false

/-- Every open session is the one the table gives for its current tag. -/
def Reachable (m : UDPMux) : Prop := ∀ i s, m.Open i s → m.table.get s.tag = some i

/-- No tag that the operation writes into the table or removes from it is the current tag of
another open session: the new tag of `RegisterSession` and `RatchetEpoch`, the current and the
non-zero previous tag of the first `Close`. -/
def Spares (m : UDPMux) : Op → Prop
  | .register keys => ∀ j s, m.Open j s → s.tag ≠ keys.sessionTag
  | .ratchet i keys => i < m.sessions.length → ∀ j s, m.Open j s → j ≠ i → s.tag ≠ keys.sessionTag
  | .close i => ∀ s, m.Open i s → ∀ j s', m.Open j s' → j ≠ i →
      s'.tag ≠ s.tag ∧ (s.prevTag ≠ .zero → s'.tag ≠ s.prevTag)
  | .datagram _ => True

variable {m : UDPMux}

theorem Open.registerSession {keys : UDPKeys} {i : ℕ} {s : UDPSession}
    (h : (m.registerSession keys).Open i s) :
    (m.Open i s ∧ i < m.sessions.length) ∨ (i = m.sessions.length ∧ s = newUDPSession keys) := by
  obtain ⟨hs, ho⟩ := h
  simp only [UDPMux.registerSession] at hs
  rcases Nat.lt_trichotomy i m.sessions.length with hi | rfl | hi
  · rw [List.getElem?_append_left hi] at hs
    exact .inl ⟨⟨hs, ho⟩, hi⟩
  · simp only [List.getElem?_concat_length, Option.some.injEq] at hs
    exact .inr ⟨rfl, hs.symm⟩
  · rw [List.getElem?_eq_none (by simpa using hi)] at hs
    exact absurd hs (by simp)

theorem UDPMux.Open.lt {i : ℕ} {s : UDPSession} (h : m.Open i s) : i < m.sessions.length :=
  (List.getElem?_eq_some_iff.mp h.1).1

theorem Open.ratchetEpoch {keys : UDPKeys} {i j : ℕ} {s₀ s : UDPSession}
    (hs₀ : m.sessions[i]? = some s₀) (h : (m.ratchetEpoch i keys).Open j s) :
    (j = i ∧ s = s₀.ratchet keys) ∨ (j ≠ i ∧ m.Open j s) := by
  obtain ⟨hs, ho⟩ := h
  rw [sessions_ratchetEpoch m hs₀] at hs
  split at hs
  · exact .inl ⟨‹_›, (Option.some.inj hs).symm⟩
  · exact .inr ⟨‹_›, hs, ho⟩

theorem Open.close {i j : ℕ} {s₀ s : UDPSession} (hs₀ : m.Open i s₀) (h : (m.close i).Open j s) :
    j ≠ i ∧ m.Open j s := by
  obtain ⟨hs, ho⟩ := h
  rw [sessions_close m hs₀.1 hs₀.2] at hs
  split at hs
  · rw [← Option.some.inj hs] at ho
    exact absurd ho (by simp)
  · exact ⟨‹_›, hs, ho⟩

/-- **A sparing operation keeps all open sessions reachable.** -/
theorem reachable_step (op : Op) (hm : Reachable m) (hop : Spares m op) : Reachable (m.step op) := by
  cases op with
  | register keys =>
    intro i s h
    change (m.registerSession keys).table.get s.tag = some i
    rw [get_registerSession]
    rcases Open.registerSession h with ⟨h, -⟩ | ⟨rfl, rfl⟩
    · rw [if_neg (hop i s h), hm i s h]
    · simp [newUDPSession]
  | ratchet i keys =>
    cases hs₀ : m.sessions[i]? with
    | none => simpa [UDPMux.step, ratchetEpoch_of_none m hs₀] using hm
    | some s₀ =>
      have hi : i < m.sessions.length := (List.getElem?_eq_some_iff.mp hs₀).1
      intro j s h
      change (m.ratchetEpoch i keys).table.get s.tag = some j
      rw [get_ratchetEpoch m hs₀]
      rcases Open.ratchetEpoch hs₀ h with ⟨rfl, rfl⟩ | ⟨hj, h⟩
      · simp [UDPSession.ratchet]
      · rw [if_neg (hop hi j s h hj), hm j s h]
  | close i =>
    by_cases ho : ∃ s₀, m.Open i s₀
    · obtain ⟨s₀, hs₀⟩ := ho
      intro j s h
      obtain ⟨hj, h⟩ := Open.close hs₀ h
      obtain ⟨h1, h2⟩ := hop s₀ hs₀ j s h hj
      change (m.close i).table.get s.tag = some j
      rw [get_close m hs₀.1 hs₀.2, if_neg, hm j s h]
      rintro (ht | ⟨ht, hz⟩)
      · exact h1 ht
      · exact h2 hz ht
    · have : m.close i = m := close_of_closed m fun s hs => by
        by_contra hc
        exact ho ⟨s, hs, by simpa using hc⟩
      simpa [UDPMux.step, this] using hm
  | datagram tag =>
    intro i s h
    simp only [UDPMux.step, UDPMux.Open, arrive_sessions, arrive_table] at h ⊢
    exact hm i s h

/-- **Any other operation makes an open session unreachable at once.** -/
theorem not_reachable_step (op : Op) (hop : ¬Spares m op) : ¬Reachable (m.step op) := by
  intro h
  cases op with
  | register keys =>
    refine hop fun j s hs ht => ?_
    -- the new session has taken the tag over
    have := h j s ⟨by
      change (m.sessions ++ [newUDPSession keys])[j]? = some s
      rw [List.getElem?_append_left hs.lt]; exact hs.1, hs.2⟩
    change (m.registerSession keys).table.get s.tag = some j at this
    rw [get_registerSession, if_pos ht] at this
    have hlt := hs.lt
    have heq := Option.some.inj this
    omega
  | ratchet i keys =>
    refine hop fun hi j s hs hj ht => ?_
    have hs₀ : m.sessions[i]? = some m.sessions[i] := List.getElem?_eq_getElem hi
    have := h j s ⟨by
      change (m.ratchetEpoch i keys).sessions[j]? = some s
      rw [sessions_ratchetEpoch m hs₀, if_neg hj]; exact hs.1, hs.2⟩
    change (m.ratchetEpoch i keys).table.get s.tag = some j at this
    rw [get_ratchetEpoch m hs₀, if_pos ht] at this
    exact hj (Option.some.inj this).symm
  | close i =>
    refine hop fun s₀ hs₀ j s hs hj => ?_
    -- the other session is still open after `Close`, so its tag is not among those removed
    have hget := h j s ⟨by
      change (m.close i).sessions[j]? = some s
      rw [sessions_close m hs₀.1 hs₀.2, if_neg hj]; exact hs.1, hs.2⟩
    change (m.close i).table.get s.tag = some j at hget
    rw [get_close m hs₀.1 hs₀.2] at hget
    split at hget
    · exact absurd hget (by simp)
    · rename_i hkeep
      exact ⟨fun ht => hkeep (.inl ht), fun hz ht => hkeep (.inr ⟨ht, hz⟩)⟩
  | datagram tag => exact hop trivial

theorem reachable_newUDPMux : Reachable newUDPMux := fun i s h => by
  simp [UDPMux.Open, newUDPMux] at h

/-- **In a run all open sessions stay reachable exactly when every operation spares the current
tags of the other open sessions.** -/
theorem reachable_throughout_iff (ops : List Op) :
    Runs.Throughout (fun pre => Reachable (run pre)) ops ↔
      Runs.EachStep (fun pre op => Spares (run pre) op) ops := by
  refine Runs.throughout_iff_eachStep reachable_newUDPMux ?_ (fun _ _ h => h) ?_
  · intro pre op _ hinv hop
    rw [run_append_singleton]
    exact reachable_step op hinv hop
  · intro pre op _ _ hop
    rw [run_append_singleton]
    exact not_reachable_step op hop

/-- Keys with the given tag. -/
def keysFor (tag : Tag) : UDPKeys := ⟨[], [], [], tag⟩

/-- Two sessions with the same tag: the second registration takes the entry of the first. -/
theorem not_reachable_same_tag :
    ¬Reachable (run [.register (keysFor ⟨1, 2, 3, 4⟩), .register (keysFor ⟨1, 2, 3, 4⟩)]) := by
  intro h
  exact absurd (h 0 (newUDPSession (keysFor ⟨1, 2, 3, 4⟩)) ⟨rfl, rfl⟩) (by decide)

end ObsidianVPN.Udp
