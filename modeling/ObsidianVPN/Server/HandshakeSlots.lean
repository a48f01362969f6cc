import Mathlib

/-!
# Handshake slots

`handleClient` takes a slot of the `HandshakeRateLimiter` before the handshake and gives it back in a
deferred call, which runs when the handler returns. Any number of handlers run at once; a step is one
atomic operation of one handler, `Acquire` being a load and a compare-and-swap in a loop.

* `Phase`, `Handler.turn`: where a handler is, and its next step;
* `Slots.run`: any interleaving of arriving connections and steps;
* `Slots.Balanced`: the counter is the number of handlers that hold a slot; `balanced_run`;
* **`slotsExact_iff`**: the counter is the number of handshakes in progress exactly as long as no
  handler serves an established session.
-/

namespace ObsidianVPN.Server

/-! ## The handlers -/

/-- The steps of a handshake in the order of `handleClient`; each of them returns if it fails. -/
inductive Stage where
  | preface
  | readHello
  | replayCache
  | newHandshake
  | processHello
  | revocation
  | buildFrame
  | writeHello
  deriving DecidableEq

def Stage.next : Stage → Option Stage
  | .preface => some .readHello
  | .readHello => some .replayCache
  | .replayCache => some .newHandshake
  | .newHandshake => some .processHello
  | .processHello => some .revocation
  | .revocation => some .buildFrame
  | .buildFrame => some .writeHello
  | .writeHello => none

/-- Where a handler is. -/
inductive Phase where
  /-- Before the limit per address. -/
  | arrived
  /-- In `Acquire`, before the load. -/
  | acquiring
  /-- In `Acquire`, after it has loaded `cur`. -/
  | loaded (cur : ℤ)
  | shaking (stage : Stage)
  /-- A step of the handshake has failed; the deferred calls are next. -/
  | failed
  | established
  /-- The session is over; the deferred calls are next. -/
  | ended
  | closed
  deriving DecidableEq

/-- A handler, with the numbers of slots it has taken and given back. -/
structure Handler where
  phase : Phase
  acquired : ℕ
  released : ℕ
  deriving DecidableEq

structure LimiterConfig where
  max : ℤ
  noTLS : Bool
  isReality : Bool

/-- `NewHandshakeRateLimiter` as `main` calls it. -/
def newLimiterConfig (maxHandshakes : ℤ) (noTLS isReality : Bool) : LimiterConfig :=
  ⟨if maxHandshakes ≤ 0 then 64 else maxHandshakes, noTLS, isReality⟩

/-- The preface is read without TLS, and with TLS unless the connection comes from REALITY. -/
def LimiterConfig.firstStage (cfg : LimiterConfig) : Stage :=
  if cfg.noTLS ∨ (¬cfg.noTLS ∧ ¬cfg.isReality) then .preface else .readHello

/-- The next step of a handler; `ok` is the result of what it calls. The counter of the limiter goes
in and out. -/
def Handler.turn (cfg : LimiterConfig) (active : ℤ) (ok : Bool) (h : Handler) : ℤ × Handler :=
  match h.phase with
  | .arrived => (active, { h with phase := if ok then .acquiring else .closed })
  | .acquiring => (active, { h with phase := if active ≥ cfg.max then .closed else .loaded active })
  | .loaded cur =>
    if active = cur then
      (cur + 1, { h with phase := .shaking cfg.firstStage, acquired := h.acquired + 1 })
    else (active, { h with phase := .acquiring })
  | .shaking stage =>
    if ok then
      match stage.next with
      | some stage => (active, { h with phase := .shaking stage })
      | none => (active, { h with phase := .established })
    else (active, { h with phase := .failed })
  | .established => (active, { h with phase := .ended })
  | .failed | .ended => (active - 1, { h with phase := .closed, released := h.released + 1 })
  | .closed => (active, h)

/-! ## The server -/

structure Slots where
  active : ℤ
  handlers : List Handler
  deriving DecidableEq

inductive SlotEvent where
  | accept
  | turn (i : ℕ) (ok : Bool)

def Slots.step (cfg : LimiterConfig) (s : Slots) : SlotEvent → Slots
  | .accept => { s with handlers := s.handlers ++ [⟨.arrived, 0, 0⟩] }
  | .turn i ok =>
    match s.handlers[i]? with
    | none => s
    | some h =>
      let r := h.turn cfg s.active ok
      ⟨r.1, s.handlers.set i r.2⟩

def Slots.run (cfg : LimiterConfig) (events : List SlotEvent) : Slots :=
  events.foldl (Slots.step cfg) ⟨0, []⟩

/-- The handshake is in progress; one that has failed counts until its deferred calls have run. -/
def Handler.inProgress (h : Handler) : Bool :=
  match h.phase with
  | .shaking _ | .failed => true
  | _ => false

/-- The handshake is complete, and the handler has not returned yet. -/
def Handler.serving (h : Handler) : Bool :=
  match h.phase with
  | .established | .ended => true
  | _ => false

def Slots.inProgress (s : Slots) : ℕ := s.handlers.countP Handler.inProgress

/-! ## What a step does -/

/-- The slots that a handler holds. -/
def Handler.held (h : Handler) : ℕ := if h.inProgress ∨ h.serving then 1 else 0

/-- A handler takes at most one slot, none before it has passed `Acquire`, and has given back what it
does not hold any more. -/
def Handler.Fair (h : Handler) : Prop :=
  match h.phase with
  | .arrived | .acquiring | .loaded _ => h.acquired = 0 ∧ h.released = 0
  | .shaking _ | .failed | .established | .ended => h.acquired = 1 ∧ h.released = 0
  | .closed => h.acquired = h.released ∧ h.acquired ≤ 1

/-- **A step of a handler** moves the counter by the slots that it takes or gives back. -/
theorem Handler.Fair.turn (cfg : LimiterConfig) (active : ℤ) (ok : Bool) {h : Handler} (hf : h.Fair) :
    (h.turn cfg active ok).2.Fair ∧
      (h.turn cfg active ok).1 + h.held = active + (h.turn cfg active ok).2.held := by
  obtain ⟨phase, acquired, released⟩ := h
  cases phase with
  | arrived =>
    obtain ⟨rfl, rfl⟩ : acquired = 0 ∧ released = 0 := hf
    cases ok
    · exact ⟨⟨rfl, Nat.zero_le 1⟩, rfl⟩
    · exact ⟨⟨rfl, rfl⟩, rfl⟩
  | acquiring =>
    obtain ⟨rfl, rfl⟩ : acquired = 0 ∧ released = 0 := hf
    by_cases hfull : active ≥ cfg.max
    · simp [Handler.turn, Handler.Fair, Handler.held, Handler.inProgress, Handler.serving, hfull]
    · simp [Handler.turn, Handler.Fair, Handler.held, Handler.inProgress, Handler.serving, hfull]
  | loaded cur =>
    obtain ⟨rfl, rfl⟩ : acquired = 0 ∧ released = 0 := hf
    by_cases hcas : active = cur
    · simp [Handler.turn, Handler.Fair, Handler.held, Handler.inProgress, Handler.serving, hcas]
    · simp [Handler.turn, Handler.Fair, Handler.held, Handler.inProgress, Handler.serving, hcas]
  | shaking stage =>
    cases ok
    · exact ⟨hf, rfl⟩
    · cases stage <;> exact ⟨hf, rfl⟩
  | failed | ended =>
    obtain ⟨rfl, rfl⟩ : acquired = 1 ∧ released = 0 := hf
    refine ⟨⟨rfl, le_rfl⟩, ?_⟩
    simp [Handler.turn, Handler.held, Handler.inProgress, Handler.serving]
  | established => exact ⟨hf, rfl⟩
  | closed => exact ⟨hf, rfl⟩

/-! ## Runs -/

/-- The counter is the number of handlers that hold a slot. -/
structure Slots.Balanced (s : Slots) : Prop where
  active_eq : s.active = ((s.handlers.map Handler.held).sum : ℕ)
  fair : ∀ h ∈ s.handlers, h.Fair

theorem sum_held_set {handlers : List Handler} {i : ℕ} {h : Handler} (hi : handlers[i]? = some h)
    (h' : Handler) :
    ((handlers.set i h').map Handler.held).sum + h.held =
      (handlers.map Handler.held).sum + h'.held := by
  induction handlers generalizing i with
  | nil => simp at hi
  | cons g handlers ih =>
    cases i with
    | zero =>
      obtain rfl : g = h := by simpa using hi
      simp only [List.set_cons_zero, List.map_cons, List.sum_cons]
      omega
    | succ i =>
      have hrest := ih (i := i) (by simpa using hi)
      simp only [List.set_cons_succ, List.map_cons, List.sum_cons]
      omega

theorem Slots.Balanced.step (cfg : LimiterConfig) {s : Slots} (hs : s.Balanced) (e : SlotEvent) :
    (s.step cfg e).Balanced := by
  cases e with
  | accept =>
    refine ⟨?_, ?_⟩
    · simpa [Slots.step, Handler.held, Handler.inProgress, Handler.serving] using hs.active_eq
    · intro h hh
      rcases List.mem_append.mp hh with hh | hh
      · exact hs.fair h hh
      · obtain rfl := List.mem_singleton.mp hh
        exact ⟨rfl, rfl⟩
  | turn i ok =>
    cases hi : s.handlers[i]? with
    | none =>
      have hstep : s.step cfg (.turn i ok) = s := by simp only [Slots.step, hi]
      rwa [hstep]
    | some h =>
      have hstep : s.step cfg (.turn i ok) =
          ⟨(h.turn cfg s.active ok).1, s.handlers.set i (h.turn cfg s.active ok).2⟩ := by
        simp only [Slots.step, hi]
      rw [hstep]
      obtain ⟨hfair, hmove⟩ := (hs.fair h (List.mem_of_getElem? hi)).turn cfg s.active ok
      refine ⟨?_, fun g hg => ?_⟩
      · have hset := sum_held_set hi (h.turn cfg s.active ok).2
        have hactive := hs.active_eq
        simp only
        omega
      · rcases List.mem_or_eq_of_mem_set hg with hg | rfl
        · exact hs.fair g hg
        · exact hfair

theorem balanced_run (cfg : LimiterConfig) (events : List SlotEvent) :
    (Slots.run cfg events).Balanced := by
  have hrun : ∀ s : Slots, s.Balanced → (events.foldl (Slots.step cfg) s).Balanced := by
    induction events with
    | nil => exact fun s hs => hs
    | cons e events ih => exact fun s hs => ih _ (hs.step cfg e)
  exact hrun ⟨0, []⟩ ⟨rfl, by simp⟩

/-! ## Handshakes in progress -/

def Slots.serving (s : Slots) : ℕ := s.handlers.countP Handler.serving

theorem sum_held (s : Slots) :
    (s.handlers.map Handler.held).sum = s.inProgress + s.serving := by
  obtain ⟨active, handlers⟩ := s
  unfold Slots.inProgress Slots.serving
  induction handlers with
  | nil => rfl
  | cons h handlers ih =>
    have hone : h.held = (if h.inProgress then 1 else 0) + if h.serving then 1 else 0 := by
      obtain ⟨phase, acquired, released⟩ := h
      cases phase <;> rfl
    simp only [List.map_cons, List.sum_cons, List.countP_cons] at ih ⊢
    omega

/-- The slots that are taken are those of the handshakes in progress, `Acquire` refuses only when
these are too many, and a handler that has returned has given its slot back once. -/
structure SlotsExact (cfg : LimiterConfig) (s : Slots) : Prop where
  active_eq : s.active = s.inProgress
  refused : s.active ≥ cfg.max → s.inProgress ≥ cfg.max
  given_back : ∀ h ∈ s.handlers, h.phase = .closed → h.released = h.acquired ∧ h.acquired ≤ 1

/-- **When the slots limit handshakes only**: in every state of every run, exactly when no handler is
serving a session whose handshake is complete. -/
theorem slotsExact_iff (cfg : LimiterConfig) (events : List SlotEvent) :
    SlotsExact cfg (Slots.run cfg events) ↔
      ∀ h ∈ (Slots.run cfg events).handlers, h.serving = false := by
  obtain ⟨hactive, hfair⟩ := balanced_run cfg events
  generalize Slots.run cfg events = s at hactive hfair ⊢
  rw [sum_held] at hactive
  have hserving : (∀ h ∈ s.handlers, h.serving = false) ↔ s.serving = 0 := by
    simp [Slots.serving, List.countP_eq_zero]
  rw [hserving]
  constructor
  · intro h
    have := h.active_eq
    omega
  · intro hzero
    have heq : s.active = s.inProgress := by omega
    refine ⟨heq, fun hfull => heq ▸ hfull, fun h hh hclosed => ?_⟩
    have := hfair h hh
    simp only [Handler.Fair, hclosed] at this
    exact ⟨this.1.symm, this.2⟩

/-- The steps of one handler up to the end of its handshake, without TLS. -/
def completes (i : ℕ) : List SlotEvent := List.replicate 11 (.turn i true)

/-- With one slot, a session that is established makes `Acquire` refuse the next connection, although
no handshake is in progress. -/
theorem established_refuses :
    let cfg := newLimiterConfig 1 true false
    let s := Slots.run cfg (.accept :: completes 0)
    (s.active = 1 ∧ s.inProgress = 0 ∧ s.handlers = [⟨.established, 1, 0⟩]) ∧
    (Slots.run cfg (.accept :: completes 0 ++ [.accept, .turn 1 true, .turn 1 true])).handlers =
      [⟨.established, 1, 0⟩, ⟨.closed, 0, 0⟩] := by
  decide +kernel

end ObsidianVPN.Server
