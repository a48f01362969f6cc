import ObsidianVPN.Lib.Machine

/-!
# The life of a session

`Start` makes one connection after the other until `Stop` is called. `NetworkChanged` sends a signal
through a channel with one place; a watcher that belongs to the current connection takes it, closes
the connection, and sets a flag that lets the next attempt begin at once. The main goroutine, the
watchers and the callers of `Stop` and `NetworkChanged` run side by side. A watcher that is parked in
its `select` is woken by the first of its channels that becomes ready; one that has not come to its
`select` yet chooses among those that are ready then. A dial and a handshake return when the network
lets them; `Stop` does not reach them, and the TLS dial has no deadline.

* `Main`, `Watcher`, `Session`, `Session.step`: the goroutines and what they do;
* `Session.Inv`: only the watcher of the current connection is parked, and the signals are accounted
  for; `Session.Inv.step`: every step keeps it;
* **`signals_accounted`**: no signal causes two immediate reconnects, and a signal given to the
  watcher of the current connection closes that connection;
* **`stop_ends`**: after `Stop` the main goroutine takes at most twelve steps, begins at most one
  more attempt, goes on unless a dial or a handshake does not return, and ends in the status
  "disconnected".
-/

namespace ObsidianVPN.Client

open Machine

/-- The error of `runConnection`. -/
inductive ConnErr where
  | udpStalled
  | other (text : String)
  deriving DecidableEq, Repr

def ConnErr.text : ConnErr → String
  | .udpStalled => "udp data path stalled"
  | .other text => text

/-- An error as `%v` prints it. -/
def errText : Option ConnErr → String
  | none => "<nil>"
  | some err => err.text

inductive Status where
  | disconnected
  | connecting
  | connected
  | reconnecting
  | error
  deriving DecidableEq, Repr

/-- What the main goroutine does next, in `Start` or in `runConnection`. -/
inductive Main where
  | checkStop
  | announce
  | drainSignal
  | dial
  | handshake
  | serve
  | stopWatcher (err : Option ConnErr)
  | returned (err : Option ConnErr)
  | reportError (err : Option ConnErr)
  | swapFlag (err : Option ConnErr)
  | announceWait (delay : ℕ) (reason : String)
  | wait (delay : ℕ)
  | finish
  | finished
  deriving DecidableEq, Repr

/-- What a watcher does next. -/
inductive Watching where
  | enter
  | parked
  | setFlag
  | closeConn
  | gone
  deriving DecidableEq, Repr

structure Watcher where
  state : Watching
  /-- The channel `done` has been closed. -/
  done : Bool
  /-- The watcher has taken a signal. -/
  signalled : Bool
  /-- The watcher has closed its connection. -/
  cut : Bool
  deriving DecidableEq, Repr

/-- A session; `watchers` holds one watcher for each connection so far. The attempts begun, the calls
of `NetworkChanged` and the reconnects announced for a network change are counted. -/
structure Session where
  main : Main
  attempt : ℕ
  stopped : Bool
  signal : Bool
  netChanged : Bool
  /-- What the dial or the handshake in progress has returned: its error, or the session. -/
  reply : Option (Except String String)
  watchers : List Watcher
  statuses : List (Status × String)
  begun : ℕ
  calls : ℕ
  instant : ℕ

/-- How the main goroutine goes on where it depends on others. -/
inductive Choice where
  | go
  | err (e : ConnErr)
  | stop

/-- Which channel a watcher chooses. -/
inductive Ready where
  | signal
  | done
  | stop

inductive SessionEvent where
  | main (c : Choice)
  | watcher (k : ℕ) (r : Ready)
  /-- The dial or the handshake in progress returns. -/
  | reply (r : Except String String)
  | networkChanged
  | stop

/-- The watcher goes on. -/
def Watcher.goto (w : Watcher) (state : Watching) : Watcher := { w with state := state }

/-- The watcher takes the signal. -/
def Watcher.take (w : Watcher) : Watcher := { w with state := .setFlag, signalled := true }

@[simp] theorem goto_state (w : Watcher) (st : Watching) : (w.goto st).state = st := rfl
@[simp] theorem goto_done (w : Watcher) (st : Watching) : (w.goto st).done = w.done := rfl
@[simp] theorem goto_signalled (w : Watcher) (st : Watching) :
    (w.goto st).signalled = w.signalled := rfl
@[simp] theorem take_state (w : Watcher) : w.take.state = .setFlag := rfl

/-- The first parked watcher takes the signal. -/
def handOver : List Watcher → Option (List Watcher)
  | [] => none
  | w :: ws =>
    if w.state = .parked then some (w.take :: ws)
    else (handOver ws).map (w :: ·)

/-- A channel on which a parked watcher waits has been closed. -/
def Watcher.wake (w : Watcher) : Watcher :=
  if w.state = .parked then w.goto .gone else w

/-- `close(done)`. -/
def Watcher.closeDone (w : Watcher) : Watcher := { w.wake with done := true }

namespace Session

section Steps

variable (host port : String) (autoReconnect : Bool)

def init : Session := ⟨.checkStop, 1, false, false, false, none, [], [], 0, 0, 0⟩

def setStatus (s : Session) (st : Status) (detail : String) : Session :=
  { s with statuses := s.statuses ++ [(st, detail)] }

/-- The end of an attempt: how long to wait for the next one, and why. -/
def swapFlag (s : Session) (err : Option ConnErr) : Session :=
  if s.netChanged then
    { s with
      netChanged := false
      instant := s.instant + 1
      main := .announceWait 0 "Network changed, reconnecting now" }
  else if err = some .udpStalled then
    { s with main := .announceWait 0 "UDP path stalled, reconnecting now" }
  else
    { s with
      main := .announceWait 3 s!"Connection dropped: {errText err} — reconnecting in 3s" }

/-- The dial has returned. -/
def dialed (s : Session) : Except String String → Session
  | .ok _ => { s with
      reply := none, watchers := s.watchers ++ [⟨.enter, false, false, false⟩], main := .handshake }
  | .error text => { s with reply := none, main := .returned (some (.other s!"dial: {text}")) }

/-- The handshake has returned. -/
def shaken (s : Session) : Except String String → Session
  | .ok sessionID =>
    { s with reply := none, main := .serve }.setStatus .connected s!"Session {sessionID} active"
  | .error text => { s with reply := none, main := .stopWatcher (some (.other text)) }

def mainStep (s : Session) (c : Choice) : Option Session :=
  match s.main, c with
  | .checkStop, .go => some { s with main := if s.stopped then .finish else .announce }
  | .announce, .go =>
    let s := { s with main := .drainSignal, begun := s.begun + 1 }
    some (if s.attempt = 1 then s.setStatus .connecting s!"Connecting to {host}:{port}"
      else s.setStatus .reconnecting s!"[Attempt {s.attempt}] Reconnecting to {host}:{port}")
  | .drainSignal, .go => some { s with signal := false, main := .dial }
  | .dial, .go => s.reply.map s.dialed
  | .handshake, .go => s.reply.map s.shaken
  | .serve, .err e => some { s with main := .stopWatcher (some e) }
  | .serve, .stop => if s.stopped then some { s with main := .stopWatcher none } else none
  | .stopWatcher err, .go => some { s with
      watchers := s.watchers.modify (s.watchers.length - 1) Watcher.closeDone
      main := .returned err }
  | .returned err, .go =>
    some { s with
      main :=
        if err ≠ none ∧ s.stopped then .finish
        else if !autoReconnect then .reportError err
        else .swapFlag err }
  | .reportError err, .go =>
    some ({ s with main := .finish }.setStatus .error s!"Connection ended: {errText err}")
  | .swapFlag err, .go => some (s.swapFlag err)
  | .announceWait delay reason, .go =>
    some ({ s with main := .wait delay }.setStatus .reconnecting reason)
  | .wait _, .go => some { s with attempt := s.attempt + 1, main := .checkStop }
  | .wait _, .stop => if s.stopped then some { s with main := .finish } else none
  | .finish, .go => some ({ s with main := .finished }.setStatus .disconnected "Session stopped")
  | _, _ => none

/-- The `select` of a watcher that has just been reached. -/
def enterSelect (s : Session) (k : ℕ) (w : Watcher) (r : Ready) : Option Session :=
  match r with
  | .signal =>
    if s.signal then
      some { s with signal := false, watchers := s.watchers.set k w.take }
    else if w.done ∨ s.stopped then none
    else some { s with watchers := s.watchers.set k (w.goto .parked) }
  | .done =>
    if w.done then some { s with watchers := s.watchers.set k (w.goto .gone) } else none
  | .stop =>
    if s.stopped then some { s with watchers := s.watchers.set k (w.goto .gone) }
    else none

def watcherStep (s : Session) (k : ℕ) (r : Ready) : Option Session :=
  match s.watchers[k]? with
  | none => none
  | some w =>
    match w.state with
    | .enter => s.enterSelect k w r
    | .setFlag => some { s with
        netChanged := true, watchers := s.watchers.set k (w.goto .closeConn) }
    | .closeConn => some { s with
        watchers := s.watchers.set k { w with state := .gone, cut := true } }
    | .parked | .gone => none

/-- The dial or the handshake in progress returns. -/
def netReply (s : Session) (r : Except String String) : Option Session :=
  if (s.main = .dial ∨ s.main = .handshake) ∧ s.reply.isNone then some { s with reply := some r }
  else none

def networkChanged (s : Session) : Session :=
  let s := { s with calls := s.calls + 1 }
  match handOver s.watchers with
  | some ws => { s with watchers := ws }
  | none => { s with signal := true }

def stop (s : Session) : Session :=
  { s with stopped := true, watchers := s.watchers.map Watcher.wake }

def step (s : Session) : SessionEvent → Option Session
  | .main c => s.mainStep host port autoReconnect c
  | .watcher k r => s.watcherStep k r
  | .reply r => s.netReply r
  | .networkChanged => some s.networkChanged
  | .stop => some s.stop

end Steps

end Session

/-! ## The invariant -/

/-- The watchers about to set the flag. -/
def flagging (ws : List Watcher) : ℕ := ws.countP fun w => decide (w.state = .setFlag)

/-- The main goroutine is inside a connection with a watcher. -/
def Main.InConnection : Main → Prop
  | .handshake | .serve | .stopWatcher _ => True
  | _ => False

/-- A signal that a watcher has taken is honoured, or is about to be. -/
def Watcher.Honours (w : Watcher) : Prop :=
  w.signalled = true → w.state = .setFlag ∨ w.state = .closeConn ∨ w.state = .gone ∧ w.cut = true

/-- Signals taken are honoured, only the watcher of the current connection is open, and a parked
watcher has nothing to wake it. -/
structure Watched (main : Main) (stopped signal : Bool) (ws : List Watcher) : Prop where
  honours : ∀ (k : ℕ) (w : Watcher), ws[k]? = some w → w.Honours
  current : ∀ (k : ℕ) (w : Watcher), ws[k]? = some w → w.done = false →
    k + 1 = ws.length ∧ main.InConnection
  parked : ∀ (k : ℕ) (w : Watcher), ws[k]? = some w → w.state = .parked →
    w.done = false ∧ stopped = false ∧ signal = false

structure Session.Inv (s : Session) : Prop where
  account : s.signal.toNat + flagging s.watchers + s.netChanged.toNat + s.instant ≤ s.calls
  watched : Watched s.main s.stopped s.signal s.watchers

theorem flagging_modify (ws : List Watcher) (i : ℕ) (f : Watcher → Watcher)
    (hf : ∀ w, (f w).state = .setFlag ↔ w.state = .setFlag) :
    flagging (ws.modify i f) = flagging ws := by
  induction ws generalizing i with
  | nil => simp
  | cons w ws ih =>
    cases i with
    | zero => simp [flagging, List.countP_cons, hf]
    | succ i =>
      have := ih i
      simp only [flagging] at this ⊢
      simp [List.countP_cons, this]

theorem flagging_set {ws : List Watcher} {k : ℕ} {w : Watcher} (hw : ws[k]? = some w)
    (w' : Watcher) :
    flagging (ws.set k w') + (if w.state = .setFlag then 1 else 0) =
      flagging ws + (if w'.state = .setFlag then 1 else 0) := by
  induction ws generalizing k with
  | nil => simp at hw
  | cons v ws ih =>
    cases k with
    | zero =>
      obtain rfl : v = w := by simpa using hw
      simp only [flagging, List.set_cons_zero, List.countP_cons, decide_eq_true_eq]
      omega
    | succ k =>
      have := ih (k := k) (by simpa using hw)
      simp only [flagging, List.set_cons_succ, List.countP_cons, decide_eq_true_eq] at this ⊢
      omega

theorem wake_state (w : Watcher) : w.wake.state = .setFlag ↔ w.state = .setFlag := by
  unfold Watcher.wake
  split
  · rename_i h
    simp [h]
  · rfl

theorem wake_not_parked (w : Watcher) : w.wake.state ≠ .parked := by
  unfold Watcher.wake
  split
  · simp
  · assumption

theorem Watcher.Honours.wake {w : Watcher} (h : w.Honours) : w.wake.Honours := by
  unfold Watcher.wake
  split
  · rename_i hp
    intro hs
    rcases h hs with h | h | ⟨h, -⟩ <;> simp [hp] at h
  · exact h

/-- Handing over a signal sets the state of the first parked watcher. -/
theorem handOver_eq_some {ws ws' : List Watcher} (h : handOver ws = some ws') :
    ∃ k w, ws[k]? = some w ∧ w.state = .parked ∧
      ws' = ws.set k w.take := by
  induction ws generalizing ws' with
  | nil => simp [handOver] at h
  | cons v ws ih =>
    unfold handOver at h
    split at h
    · rename_i hp
      obtain rfl := Option.some.inj h
      exact ⟨0, v, rfl, hp, rfl⟩
    · obtain ⟨ws₁, h₁, rfl⟩ := Option.map_eq_some_iff.mp h
      obtain ⟨k, w, hw, hp, rfl⟩ := ih h₁
      exact ⟨k + 1, w, by simpa using hw, hp, rfl⟩

theorem handOver_eq_none {ws : List Watcher} (h : handOver ws = none) {k : ℕ} {w : Watcher}
    (hw : ws[k]? = some w) : w.state ≠ .parked := by
  induction ws generalizing k with
  | nil => simp at hw
  | cons v ws ih =>
    unfold handOver at h
    split at h
    · cases h
    · rename_i hv
      cases k with
      | zero =>
        obtain rfl : v = w := by simpa using hw
        exact hv
      | succ k => exact ih (Option.map_eq_none_iff.mp h) (by simpa using hw)

section Watchers

variable {main : Main} {stopped signal : Bool} {ws : List Watcher}

theorem Watched.set (h : Watched main stopped signal ws) {k : ℕ} {w : Watcher}
    (hw : ws[k]? = some w) (w' : Watcher) (hdone : w'.done = w.done) (hhon : w'.Honours)
    {signal' : Bool} (hsig : signal' = true → signal = true)
    (hpark : w'.state = .parked → w'.done = false ∧ stopped = false ∧ signal' = false) :
    Watched main stopped signal' (ws.set k w') := by
  have hget : ∀ (j : ℕ) (v : Watcher), (ws.set k w')[j]? = some v →
      v = w' ∧ j = k ∨ ws[j]? = some v := by
    intro j v hv
    rw [List.getElem?_set] at hv
    split at hv
    · rename_i hjk
      split at hv
      · exact .inl ⟨(Option.some.inj hv).symm, hjk.symm⟩
      · cases hv
    · exact .inr hv
  refine ⟨fun j v hv => ?_, fun j v hv hopen => ?_, fun j v hv hp => ?_⟩
  · rcases hget j v hv with ⟨rfl, -⟩ | hv
    · exact hhon
    · exact h.honours j v hv
  · rw [List.length_set]
    rcases hget j v hv with ⟨rfl, rfl⟩ | hv
    · exact h.current j w hw (hdone ▸ hopen)
    · exact h.current j v hv hopen
  · rcases hget j v hv with ⟨rfl, -⟩ | hv
    · exact hpark hp
    · obtain ⟨h₁, h₂, h₃⟩ := h.parked j v hv hp
      refine ⟨h₁, h₂, ?_⟩
      cases hs : signal' with
      | false => rfl
      | true => simpa [h₃] using hsig hs

/-- `close(stopCh)`. -/
theorem Watched.wake (h : Watched main stopped signal ws) :
    Watched main true signal (ws.map Watcher.wake) := by
  have hget : ∀ (j : ℕ) (v : Watcher), (ws.map Watcher.wake)[j]? = some v →
      ∃ w, ws[j]? = some w ∧ w.wake = v := by
    intro j v hv
    simpa using hv
  refine ⟨fun k v hv => ?_, fun k v hv hopen => ?_, fun k v hv hp => ?_⟩
  · obtain ⟨w, hw, rfl⟩ := hget k v hv
    exact (h.honours k w hw).wake
  · obtain ⟨w, hw, rfl⟩ := hget k v hv
    have hdone : w.wake.done = w.done := by
      unfold Watcher.wake
      split <;> rfl
    rw [List.length_map]
    exact h.current k w hw (hdone ▸ hopen)
  · obtain ⟨w, hw, rfl⟩ := hget k v hv
    exact absurd hp (wake_not_parked w)

/-- A new connection gets its watcher. -/
theorem Watched.add (h : Watched main stopped signal ws) (hmain : ¬main.InConnection) :
    Watched .handshake stopped signal (ws ++ [⟨.enter, false, false, false⟩]) := by
  have hget : ∀ (j : ℕ) (v : Watcher), (ws ++ [⟨.enter, false, false, false⟩])[j]? = some v →
      ws[j]? = some v ∨ j = ws.length ∧ v = ⟨.enter, false, false, false⟩ := by
    intro j v hv
    rw [List.getElem?_append] at hv
    split at hv
    · exact .inl hv
    · rename_i hge
      obtain ⟨hj, hv⟩ : j - ws.length = 0 ∧ (⟨.enter, false, false, false⟩ : Watcher) = v := by
        simpa [List.getElem?_singleton] using hv
      exact .inr ⟨by omega, hv.symm⟩
  refine ⟨fun j v hv => ?_, fun j v hv hopen => ?_, fun j v hv hp => ?_⟩
  · rcases hget j v hv with hv | ⟨-, rfl⟩
    · exact h.honours j v hv
    · exact fun hs => by simp at hs
  · rcases hget j v hv with hv | ⟨rfl, -⟩
    · exact absurd (h.current j v hv hopen).2 hmain
    · exact ⟨by simp, trivial⟩
  · rcases hget j v hv with hv | ⟨-, rfl⟩
    · exact h.parked j v hv hp
    · simp at hp

/-- The connection ends: `done` is closed. -/
theorem Watched.closeDone (h : Watched main stopped signal ws) (main' : Main) :
    Watched main' stopped signal (ws.modify (ws.length - 1) Watcher.closeDone) := by
  have hget : ∀ (j : ℕ) (v : Watcher), (ws.modify (ws.length - 1) Watcher.closeDone)[j]? = some v →
      ∃ w, ws[j]? = some w ∧ v.done = true ∧ (v = w ∨ v = w.closeDone) := by
    intro j v hv
    rw [List.getElem?_modify] at hv
    obtain ⟨w, hw, rfl⟩ := Option.map_eq_some_iff.mp hv
    refine ⟨w, hw, ?_⟩
    split
    · exact ⟨rfl, .inr rfl⟩
    · rename_i hne
      refine ⟨?_, .inl rfl⟩
      -- the watchers of earlier connections have been told already
      by_contra hopen
      have hlast := (h.current j w hw (by simpa using hopen)).1
      omega
  refine ⟨fun j v hv => ?_, fun j v hv hopen => ?_, fun j v hv hp => ?_⟩
  · obtain ⟨w, hw, -, rfl | rfl⟩ := hget j v hv
    · exact h.honours j v hw
    · exact (h.honours j w hw).wake
  · obtain ⟨w, -, hdone, -⟩ := hget j v hv
    simp [hdone] at hopen
  · obtain ⟨w, hw, hdone, rfl | rfl⟩ := hget j v hv
    · simp [(h.parked j v hw hp).1] at hdone
    · exact absurd hp (wake_not_parked w)

/-- The main goroutine goes on outside of a connection, or inside the same one. -/
theorem Watched.goOn (h : Watched main stopped signal ws) {main' : Main}
    (hmain : main.InConnection → main'.InConnection) {signal' : Bool}
    (hsig : signal' = true → signal = true) : Watched main' stopped signal' ws where
  honours := h.honours
  current k w hw hopen := ⟨(h.current k w hw hopen).1, hmain (h.current k w hw hopen).2⟩
  parked k w hw hp := by
    obtain ⟨h₁, h₂, h₃⟩ := h.parked k w hw hp
    refine ⟨h₁, h₂, ?_⟩
    cases hs : signal' with
    | false => rfl
    | true => simpa [h₃] using hsig hs

end Watchers

namespace Session

theorem inv_init : init.Inv := ⟨by simp [init, flagging], by simp [init], by simp [init], by simp [init]⟩

theorem Inv.networkChanged {s : Session} (hi : s.Inv) : s.networkChanged.Inv := by
  have hacc := hi.account
  unfold Session.networkChanged
  dsimp only
  split
  · rename_i ws hh
    obtain ⟨k, w, hw, hp, rfl⟩ := handOver_eq_some hh
    have hflag := flagging_set hw w.take
    simp only [hp, take_state, reduceCtorEq, if_false, if_true] at hflag
    refine ⟨by dsimp only; omega, ?_⟩
    exact hi.watched.set hw w.take rfl (fun _ => .inl rfl) id nofun
  · rename_i hh
    refine ⟨by dsimp only [Bool.toNat_true]; omega, hi.watched.honours, hi.watched.current, ?_⟩
    exact fun k w hw hp => absurd hp (handOver_eq_none hh hw)

theorem Inv.stop {s : Session} (hi : s.Inv) : s.stop.Inv := by
  have hflag : flagging (s.watchers.map Watcher.wake) = flagging s.watchers := by
    simp [flagging, List.countP_map, Function.comp_def, wake_state]
  have hacc := hi.account
  exact ⟨by simp only [Session.stop, hflag]; omega, hi.watched.wake⟩

theorem Inv.watcherStep {s s' : Session} (hi : s.Inv) {k : ℕ} {r : Ready}
    (h : s.watcherStep k r = some s') : s'.Inv := by
  have hacc := hi.account
  unfold Session.watcherStep at h
  cases hw : s.watchers[k]? with
  | none => simp [hw] at h
  | some w =>
    rw [hw] at h
    have hhon := hi.watched.honours k w hw
    cases hstate : w.state with
    | enter =>
      have hnot : w.signalled = false := by
        by_contra hs
        rcases hhon (by simpa using hs) with h' | h' | ⟨h', -⟩ <;> simp [hstate] at h'
      have hsilent : ∀ {st : Watching}, (w.goto st).Honours := fun hs =>
        absurd hs (by simp [hnot])
      have hidle : ∀ st : Watching, st ≠ .setFlag → s.signal.toNat +
          flagging (s.watchers.set k (w.goto st)) + s.netChanged.toNat + s.instant ≤
            s.calls := by
        intro st hst
        have hflag := flagging_set hw (w.goto st)
        simp only [hstate, hst, goto_state, reduceCtorEq, if_false] at hflag
        omega
      simp only [hstate, enterSelect] at h
      cases r with
      | signal =>
        dsimp only at h
        split at h
        · rename_i hsig
          obtain rfl := Option.some.inj h
          have hflag := flagging_set hw w.take
          simp only [hstate, take_state, reduceCtorEq, if_false, if_true] at hflag
          simp only [hsig, Bool.toNat_true] at hacc
          refine ⟨by dsimp only [Bool.toNat_false]; omega, ?_⟩
          exact hi.watched.set hw w.take rfl (fun _ => .inl rfl) nofun nofun
        · rename_i hsig
          split at h
          · cases h
          · rename_i hopen
            obtain rfl := Option.some.inj h
            refine ⟨hidle .parked nofun, hi.watched.set hw (w.goto .parked) rfl hsilent id fun _ => ?_⟩
            simp only [not_or, Bool.not_eq_true] at hopen hsig
            exact ⟨hopen.1, hopen.2, hsig⟩
      | done =>
        dsimp only at h
        obtain ⟨-, h⟩ := Option.ite_none_right_eq_some.mp h
        obtain rfl := Option.some.inj h
        exact ⟨hidle .gone nofun, hi.watched.set hw (w.goto .gone) rfl hsilent id nofun⟩
      | stop =>
        dsimp only at h
        obtain ⟨-, h⟩ := Option.ite_none_right_eq_some.mp h
        obtain rfl := Option.some.inj h
        exact ⟨hidle .gone nofun, hi.watched.set hw (w.goto .gone) rfl hsilent id nofun⟩
    | parked => simp [hstate] at h
    | gone => simp [hstate] at h
    | setFlag =>
      simp only [hstate] at h
      obtain rfl := Option.some.inj h
      have hflag := flagging_set hw (w.goto .closeConn)
      simp only [hstate, goto_state, reduceCtorEq, if_false, if_true] at hflag
      refine ⟨by dsimp only [Bool.toNat_true]; omega, ?_⟩
      exact hi.watched.set hw (w.goto .closeConn) rfl (fun _ => .inr (.inl rfl)) id nofun
    | closeConn =>
      simp only [hstate] at h
      obtain rfl := Option.some.inj h
      have hflag := flagging_set hw { w with state := .gone, cut := true }
      simp only [hstate, reduceCtorEq, if_false] at hflag
      refine ⟨by dsimp only; omega, ?_⟩
      exact hi.watched.set hw { w with state := .gone, cut := true } rfl
        (fun _ => .inr (.inr ⟨rfl, rfl⟩)) id nofun


end Session

/-! ## The steps of the main goroutine -/

/-- How far it is to the end, once `stopCh` is closed. -/
def Main.rank : Main → ℕ
  | .finished => 0
  | .finish => 1
  | .checkStop | .reportError _ => 2
  | .wait _ => 3
  | .announceWait _ _ => 4
  | .swapFlag _ => 5
  | .returned _ => 6
  | .stopWatcher _ => 7
  | .serve => 8
  | .handshake => 9
  | .dial => 10
  | .drainSignal => 11
  | .announce => 12

/-- What a step of the main goroutine can do. -/
inductive Moved (s : Session) : Session → Prop where
  | quiet (m : Main) (reply : Option (Except String String))
      (hrank : s.stopped = true → m.rank < s.main.rank)
      (hin : s.main.InConnection → m.InConnection) (hlast : m ≠ .finished) :
      Moved s { s with main := m, reply := reply }
  | say (m : Main) (reply : Option (Except String String)) (st : Status) (detail : String)
      (hrank : m.rank < s.main.rank) (hin : s.main.InConnection → m.InConnection)
      (hlast : m = .finished → st = .disconnected) :
      Moved s ({ s with main := m, reply := reply }.setStatus st detail)
  | announce (st : Status) (detail : String) (hmain : s.main = .announce) :
      Moved s ({ s with main := .drainSignal, begun := s.begun + 1 }.setStatus st detail)
  | drain (hmain : s.main = .drainSignal) : Moved s { s with signal := false, main := .dial }
  | connect (hmain : s.main = .dial) : Moved s { s with
      reply := none, watchers := s.watchers ++ [⟨.enter, false, false, false⟩], main := .handshake }
  | disconnect (err : Option ConnErr) (hmain : s.main = .stopWatcher err) : Moved s { s with
      watchers := s.watchers.modify (s.watchers.length - 1) Watcher.closeDone
      main := .returned err }
  | changed (err : Option ConnErr) (reason : String) (hmain : s.main = .swapFlag err)
      (hflag : s.netChanged = true) : Moved s { s with
        netChanged := false, instant := s.instant + 1, main := .announceWait 0 reason }
  | again (delay : ℕ) (hmain : s.main = .wait delay) :
      Moved s { s with attempt := s.attempt + 1, main := .checkStop }

theorem moved_of_mainStep {s s' : Session} {host port : String} {autoReconnect : Bool} {c : Choice}
    (h : s.mainStep host port autoReconnect c = some s') : Moved s s' := by
  unfold Session.mainStep at h
  split at h
  · -- the check of `stopCh`
    rename_i hmain
    obtain rfl := Option.some.inj h
    refine .quiet _ s.reply (fun hs => ?_) (by simp [hmain, Main.InConnection]) ?_
    · simp [hs, hmain, Main.rank]
    · split <;> simp
  · rename_i hmain
    obtain rfl := Option.some.inj h
    dsimp only
    split
    · exact .announce _ _ hmain
    · exact .announce _ _ hmain
  · rename_i hmain
    obtain rfl := Option.some.inj h
    exact .drain hmain
  · -- a dial that has returned
    rename_i hmain
    obtain ⟨r, -, rfl⟩ := Option.map_eq_some_iff.mp h
    cases r with
    | ok _ => exact .connect hmain
    | error text =>
      exact .quiet _ none (by simp [hmain, Main.rank]) (by simp [hmain, Main.InConnection]) (by simp)
  · -- a handshake that has returned
    rename_i hmain
    obtain ⟨r, -, rfl⟩ := Option.map_eq_some_iff.mp h
    cases r with
    | ok sessionID =>
      exact .say .serve none _ _ (by simp [hmain, Main.rank]) (fun _ => trivial) (by simp)
    | error text => exact .quiet _ none (by simp [hmain, Main.rank]) (fun _ => trivial) (by simp)
  · rename_i e hmain
    obtain rfl := Option.some.inj h
    exact .quiet _ s.reply (by simp [hmain, Main.rank]) (fun _ => trivial) (by simp)
  · rename_i hmain
    obtain ⟨-, h⟩ := Option.ite_none_right_eq_some.mp h
    obtain rfl := Option.some.inj h
    exact .quiet _ s.reply (by simp [hmain, Main.rank]) (fun _ => trivial) (by simp)
  · rename_i err hmain
    obtain rfl := Option.some.inj h
    exact .disconnect err hmain
  · rename_i err hmain
    obtain rfl := Option.some.inj h
    refine .quiet _ s.reply (fun _ => ?_) (by simp [hmain, Main.InConnection]) ?_
    · rw [hmain]
      split
      · simp [Main.rank]
      · split <;> simp [Main.rank]
    · split
      · simp
      · split <;> simp
  · rename_i err hmain
    obtain rfl := Option.some.inj h
    exact .say _ s.reply _ _ (by simp [hmain, Main.rank]) (by simp [hmain, Main.InConnection]) (by simp)
  · rename_i err hmain
    obtain rfl := Option.some.inj h
    unfold Session.swapFlag
    split
    · rename_i hflag
      exact .changed err _ hmain hflag
    · split
      · exact .quiet _ s.reply (by simp [hmain, Main.rank]) (by simp [hmain, Main.InConnection]) (by simp)
      · exact .quiet _ s.reply (by simp [hmain, Main.rank]) (by simp [hmain, Main.InConnection]) (by simp)
  · rename_i delay reason hmain
    obtain rfl := Option.some.inj h
    exact .say _ s.reply _ _ (by simp [hmain, Main.rank]) (by simp [hmain, Main.InConnection]) (by simp)
  · rename_i delay hmain
    obtain rfl := Option.some.inj h
    exact .again delay hmain
  · rename_i delay hmain
    obtain ⟨-, h⟩ := Option.ite_none_right_eq_some.mp h
    obtain rfl := Option.some.inj h
    exact .quiet _ s.reply (by simp [hmain, Main.rank]) (by simp [hmain, Main.InConnection]) (by simp)
  · rename_i hmain
    obtain rfl := Option.some.inj h
    exact .say _ s.reply _ _ (by simp [hmain, Main.rank]) (by simp [hmain, Main.InConnection]) (fun _ => rfl)
  · cases h

namespace Session

theorem Inv.moved {s s' : Session} (hi : s.Inv) (h : Moved s s') : s'.Inv := by
  have hacc := hi.account
  cases h with
  | quiet m reply hrank hin hlast => exact ⟨hacc, hi.watched.goOn hin id⟩
  | say m reply st detail hrank hin hlast => exact ⟨hacc, hi.watched.goOn hin id⟩
  | announce st detail hmain =>
    exact ⟨hacc, hi.watched.goOn (by simp [hmain, Main.InConnection]) id⟩
  | drain hmain =>
    refine ⟨?_, hi.watched.goOn (by simp [hmain, Main.InConnection]) nofun⟩
    dsimp only [Bool.toNat_false]
    omega
  | connect hmain =>
    refine ⟨?_, hi.watched.add (by simp [hmain, Main.InConnection])⟩
    simpa [flagging] using hacc
  | disconnect err hmain =>
    have hflag := flagging_modify s.watchers (s.watchers.length - 1) Watcher.closeDone wake_state
    exact ⟨by dsimp only; omega, hi.watched.closeDone _⟩
  | changed err reason hmain hflag =>
    refine ⟨?_, hi.watched.goOn (by simp [hmain, Main.InConnection]) id⟩
    simp only [hflag, Bool.toNat_true] at hacc
    dsimp only [Bool.toNat_false]
    omega
  | again delay hmain => exact ⟨hacc, hi.watched.goOn (by simp [hmain, Main.InConnection]) id⟩

/-- **Every step keeps the invariant.** -/
theorem Inv.step {s s' : Session} (hi : s.Inv) {host port : String} {autoReconnect : Bool}
    {ev : SessionEvent} (h : s.step host port autoReconnect ev = some s') : s'.Inv := by
  cases ev with
  | main c => exact hi.moved (moved_of_mainStep h)
  | watcher k r => exact hi.watcherStep h
  | reply r =>
    obtain ⟨-, h⟩ := Option.ite_none_right_eq_some.mp h
    obtain rfl := Option.some.inj h
    exact ⟨hi.account, hi.watched⟩
  | networkChanged =>
    obtain rfl := Option.some.inj h
    exact hi.networkChanged
  | stop =>
    obtain rfl := Option.some.inj h
    exact hi.stop

end Session

/-! ## Signals -/

/-- Watchers that have taken a signal are still there. -/
def Keeps (ws ws' : List Watcher) : Prop :=
  ∀ (k : ℕ) (w : Watcher), ws[k]? = some w → w.signalled = true →
    ∃ w', ws'[k]? = some w' ∧ w'.signalled = true

theorem Keeps.refl (ws : List Watcher) : Keeps ws ws := fun _ w hw hs => ⟨w, hw, hs⟩

theorem Keeps.trans {ws ws' ws'' : List Watcher} (h : Keeps ws ws') (h' : Keeps ws' ws'') :
    Keeps ws ws'' := fun k w hw hs => by
  obtain ⟨w', hw', hs'⟩ := h k w hw hs
  exact h' k w' hw' hs'

theorem keeps_set {ws : List Watcher} {k : ℕ} {w w' : Watcher} (hw : ws[k]? = some w)
    (hs : w.signalled = true → w'.signalled = true) : Keeps ws (ws.set k w') := by
  intro j v hv hsv
  have hlt := (List.getElem?_eq_some_iff.mp hw).1
  by_cases hjk : j = k
  · subst hjk
    obtain rfl : v = w := Option.some.inj (hv.symm.trans hw)
    exact ⟨w', by simp [hlt], hs hsv⟩
  · exact ⟨v, by simp [Ne.symm hjk, hv], hsv⟩

theorem wake_signalled (w : Watcher) : w.wake.signalled = w.signalled := by
  unfold Watcher.wake
  split <;> rfl

theorem keeps_moved {s s' : Session} (h : Moved s s') : Keeps s.watchers s'.watchers := by
  cases h with
  | connect hmain =>
    intro k w hw hs
    have hlt := (List.getElem?_eq_some_iff.mp hw).1
    exact ⟨w, (List.getElem?_append_left hlt).trans hw, hs⟩
  | disconnect err hmain =>
    intro k w hw hs
    refine ⟨if s.watchers.length - 1 = k then w.closeDone else w, ?_, ?_⟩
    · dsimp only
      rw [List.getElem?_modify, hw]
      rfl
    · split
      · exact (wake_signalled w).trans hs
      · exact hs
  | quiet | say | announce | drain | changed | again => exact Keeps.refl _

theorem keeps_watcherStep {s s' : Session} {k : ℕ} {r : Ready} (h : s.watcherStep k r = some s') :
    Keeps s.watchers s'.watchers := by
  unfold Session.watcherStep at h
  cases hw : s.watchers[k]? with
  | none => simp [hw] at h
  | some w =>
    rw [hw] at h
    cases hstate : w.state with
    | enter =>
      simp only [hstate, Session.enterSelect] at h
      cases r with
      | signal =>
        dsimp only at h
        split at h
        · obtain rfl := Option.some.inj h
          exact keeps_set hw fun _ => rfl
        · split at h
          · cases h
          · obtain rfl := Option.some.inj h
            exact keeps_set hw id
      | done =>
        obtain ⟨-, h⟩ := Option.ite_none_right_eq_some.mp h
        obtain rfl := Option.some.inj h
        exact keeps_set hw id
      | stop =>
        obtain ⟨-, h⟩ := Option.ite_none_right_eq_some.mp h
        obtain rfl := Option.some.inj h
        exact keeps_set hw id
    | parked => simp [hstate] at h
    | gone => simp [hstate] at h
    | setFlag =>
      simp only [hstate] at h
      obtain rfl := Option.some.inj h
      exact keeps_set hw id
    | closeConn =>
      simp only [hstate] at h
      obtain rfl := Option.some.inj h
      exact keeps_set hw id

section Run

variable {host port : String} {autoReconnect : Bool}

theorem keeps_step {s s' : Session} {ev : SessionEvent}
    (h : s.step host port autoReconnect ev = some s') : Keeps s.watchers s'.watchers := by
  cases ev with
  | main c => exact keeps_moved (moved_of_mainStep h)
  | watcher k r => exact keeps_watcherStep h
  | reply r =>
    obtain ⟨-, h⟩ := Option.ite_none_right_eq_some.mp h
    obtain rfl := Option.some.inj h
    exact Keeps.refl _
  | networkChanged =>
    obtain rfl := Option.some.inj h
    unfold Session.networkChanged
    dsimp only
    split
    · rename_i ws hh
      obtain ⟨k, w, hw, -, rfl⟩ := handOver_eq_some hh
      exact keeps_set hw fun _ => rfl
    · exact Keeps.refl _
  | stop =>
    obtain rfl := Option.some.inj h
    intro k w hw hs
    exact ⟨w.wake, by simp [Session.stop, hw], (wake_signalled w).trans hs⟩

/-- **Signals are neither doubled nor lost on a live connection.** In every interleaving the
reconnects announced for a network change are at most as many as the calls of `NetworkChanged`. If
`NetworkChanged` is called while a watcher is parked, then that is the watcher of the current
connection, and it has closed the connection by the time it is gone. -/
theorem signals_accounted (evs : List SessionEvent) (s : Session)
    (hrun : run (Session.step host port autoReconnect) Session.init evs = some s) :
    s.instant ≤ s.calls ∧
    ∀ pre post m, evs = pre ++ .networkChanged :: post →
      run (Session.step host port autoReconnect) Session.init pre = some m →
      ∀ (k : ℕ) (w : Watcher), m.watchers[k]? = some w → w.state = .parked →
        k + 1 = m.watchers.length ∧ m.main.InConnection ∧
        ∃ w', s.watchers[k]? = some w' ∧
          (w'.state = .setFlag ∨ w'.state = .closeConn ∨ w'.state = .gone ∧ w'.cut = true) := by
  have hs : s.Inv := run_keeps (fun _ _ _ hi hstep => hi.step hstep) Session.inv_init hrun
  refine ⟨by have := hs.account; omega, ?_⟩
  rintro pre post m rfl hpre k w hw hp
  have hm : m.Inv := run_keeps (fun _ _ _ hi hstep => hi.step hstep) Session.inv_init hpre
  obtain ⟨hopen, -, -⟩ := hm.watched.parked k w hw hp
  obtain ⟨hlast, hin⟩ := hm.watched.current k w hw hopen
  refine ⟨hlast, hin, ?_⟩
  -- the signal is handed to this watcher, since no other one is parked
  rw [run_append, hpre, Option.bind_some] at hrun
  obtain ⟨m', hm', hrest⟩ := run_cons_eq_some.mp hrun
  obtain rfl := Option.some.inj hm'
  have htaken : ∃ w', m.networkChanged.watchers[k]? = some w' ∧ w'.signalled = true := by
    unfold Session.networkChanged
    dsimp only
    split
    · rename_i ws hh
      obtain ⟨j, v, hv, hvp, rfl⟩ := handOver_eq_some hh
      obtain ⟨hvopen, -, -⟩ := hm.watched.parked j v hv hvp
      obtain rfl : j = k := by have := (hm.watched.current j v hv hvopen).1; omega
      exact ⟨v.take, by simp [(List.getElem?_eq_some_iff.mp hv).1], rfl⟩
    · rename_i hh
      exact absurd hp (handOver_eq_none hh hw)
  obtain ⟨w₁, hw₁, hs₁⟩ := htaken
  have hkeeps : Keeps m.networkChanged.watchers s.watchers :=
    run_rel (R := fun a b => Keeps a.watchers b.watchers) (fun a => Keeps.refl _)
      (fun _ _ _ => Keeps.trans) (fun _ _ _ => keeps_step) hrest
  obtain ⟨w', hw', hs'⟩ := hkeeps k w₁ hw₁ hs₁
  exact ⟨w', hw', hs.watched.honours k w' hw' hs'⟩

/-- A connection that a network change cuts, and the attempt after it. -/
def switched : List SessionEvent :=
  [.main .go, .main .go, .main .go, .reply (.ok ""), .main .go, .watcher 0 .signal]

def switchedRest : List SessionEvent :=
  [.watcher 0 .signal, .watcher 0 .signal, .reply (.error "read server hello: EOF"), .main .go,
   .main .go, .main .go, .main .go, .main .go, .main .go, .stop, .main .go, .main .go]

def switchedStart : Session := last (Session.step "vpn" "443" true) Session.init switched

def switchedEnd : Session :=
  last (Session.step "vpn" "443" true) Session.init (switched ++ .networkChanged :: switchedRest)

theorem signals_accounted_switched :
    (run (Session.step "vpn" "443" true) Session.init
      (switched ++ .networkChanged :: switchedRest)).isSome ∧
    switchedEnd.instant = 1 ∧ switchedEnd.instant ≤ switchedEnd.calls ∧
    ∃ w', switchedEnd.watchers[0]? = some w' ∧
      (w'.state = .setFlag ∨ w'.state = .closeConn ∨ w'.state = .gone ∧ w'.cut = true) := by
  have hpre : (run (Session.step "vpn" "443" true) Session.init switched).isSome := by decide
  have hrun : (run (Session.step "vpn" "443" true) Session.init
    (switched ++ .networkChanged :: switchedRest)).isSome := by decide
  obtain ⟨hinstant, hsignal⟩ := signals_accounted (switched ++ .networkChanged :: switchedRest)
    switchedEnd (run_eq_last hrun)
  refine ⟨hrun, by decide, hinstant, ?_⟩
  exact (hsignal switched switchedRest switchedStart rfl (run_eq_last hpre) 0
    ⟨.parked, false, false, false⟩ (by decide) rfl).2.2

/-! ## Stopping -/

/-- The steps of the main goroutine count. -/
def SessionEvent.weight : SessionEvent → ℕ
  | .main _ => 1
  | _ => 0

/-- The attempts begun, and the one that is about to be announced. -/
def Session.due (s : Session) : ℕ := s.begun + if s.main = .announce then 1 else 0

theorem rank_le (m : Main) : m.rank ≤ 12 := by
  cases m <;> simp [Main.rank]

/-- A step after `Stop` comes closer to the end and begins no attempt that was not due. -/
theorem stopped_moved {s s' : Session} (hs : s.stopped = true) (h : Moved s s') :
    s'.stopped = true ∧ s'.due ≤ s.due ∧ s'.main.rank < s.main.rank := by
  -- no step leads to `announce`, the highest place
  have hdue : ∀ (m : Main), m.rank < s.main.rank → m ≠ .announce := by
    rintro m hlt rfl
    exact absurd (rank_le s.main) (by simpa [Main.rank] using hlt)
  cases h with
  | quiet m reply hrank hin hlast => exact ⟨hs, by simp [Session.due, hdue m (hrank hs)], hrank hs⟩
  | say m reply st detail hrank hin hlast =>
    exact ⟨hs, by simp [Session.due, Session.setStatus, hdue m hrank], hrank⟩
  | announce st detail hmain =>
    exact ⟨hs, by simp [Session.due, Session.setStatus, hmain],
      by simp [Session.setStatus, hmain, Main.rank]⟩
  | drain hmain | connect hmain | disconnect err hmain | changed err reason hmain hflag
  | again delay hmain =>
    exact ⟨hs, by simp [Session.due], by simp [hmain, Main.rank]⟩

theorem watcherStep_main {s s' : Session} {k : ℕ} {r : Ready} (h : s.watcherStep k r = some s') :
    s'.main = s.main ∧ s'.stopped = s.stopped ∧ s'.begun = s.begun ∧ s'.statuses = s.statuses := by
  unfold Session.watcherStep Session.enterSelect at h
  grind

theorem networkChanged_main (s : Session) :
    s.networkChanged.main = s.main ∧ s.networkChanged.stopped = s.stopped ∧
      s.networkChanged.begun = s.begun ∧ s.networkChanged.statuses = s.statuses := by
  unfold Session.networkChanged
  grind

theorem stopped_step {s s' : Session} {ev : SessionEvent} (hs : s.stopped = true)
    (h : s.step host port autoReconnect ev = some s') :
    s'.stopped = true ∧ s'.due ≤ s.due ∧ s'.main.rank + ev.weight ≤ s.main.rank := by
  cases ev with
  | main c => exact stopped_moved hs (moved_of_mainStep h)
  | watcher k r =>
    obtain ⟨hmain, hstop, hbegun, -⟩ := watcherStep_main h
    simp [hmain, hstop, hbegun, hs, Session.due, SessionEvent.weight]
  | reply r =>
    obtain ⟨-, h⟩ := Option.ite_none_right_eq_some.mp h
    obtain rfl := Option.some.inj h
    exact ⟨hs, le_rfl, le_rfl⟩
  | networkChanged =>
    obtain rfl := Option.some.inj h
    obtain ⟨hmain, hstop, hbegun, -⟩ := networkChanged_main s
    simp [hmain, hstop, hbegun, hs, Session.due, SessionEvent.weight]
  | stop =>
    obtain rfl := Option.some.inj h
    exact ⟨rfl, le_rfl, le_rfl⟩

/-- A session that has ended has said so last. -/
def Session.Signed (s : Session) : Prop :=
  s.main = .finished → ∃ detail, s.statuses.getLast? = some (.disconnected, detail)

theorem signed_step {s s' : Session} {ev : SessionEvent} (hs : s.Signed)
    (h : s.step host port autoReconnect ev = some s') : s'.Signed := by
  cases ev with
  | main c =>
    cases moved_of_mainStep h with
    | quiet m reply hrank hin hlast => exact fun hm => absurd hm hlast
    | say m reply st detail hrank hin hlast =>
      intro hm
      obtain rfl := hlast hm
      exact ⟨detail, by simp [Session.setStatus]⟩
    | announce | drain | connect | disconnect | changed | again => nofun
  | watcher k r =>
    obtain ⟨hmain, -, -, hstatuses⟩ := watcherStep_main h
    rw [Session.Signed, hmain, hstatuses]
    exact hs
  | reply r =>
    obtain ⟨-, h⟩ := Option.ite_none_right_eq_some.mp h
    obtain rfl := Option.some.inj h
    exact hs
  | networkChanged =>
    obtain rfl := Option.some.inj h
    obtain ⟨hmain, -, -, hstatuses⟩ := networkChanged_main s
    rw [Session.Signed, hmain, hstatuses]
    exact hs
  | stop =>
    obtain rfl := Option.some.inj h
    exact hs

/-- The dial or the handshake in progress has not returned yet. -/
def Session.Blocked (s : Session) : Prop :=
  (s.main = .dial ∨ s.main = .handshake) ∧ s.reply = none

/-- After `Stop` the main goroutine waits for nothing else. -/
theorem exists_mainStep_iff (s : Session) (hs : s.stopped = true) :
    (∃ c, (s.mainStep host port autoReconnect c).isSome) ↔ s.main ≠ .finished ∧ ¬s.Blocked := by
  unfold Session.Blocked
  cases hmain : s.main with
  | dial | handshake =>
    cases hreply : s.reply with
    | none =>
      refine iff_of_false ?_ (by simp)
      rintro ⟨c, hc⟩
      cases c <;> simp [Session.mainStep, hmain, hreply] at hc
    | some r => exact iff_of_true ⟨.go, by simp [Session.mainStep, hmain, hreply]⟩ (by simp)
  | serve => exact iff_of_true ⟨.stop, by simp [Session.mainStep, hmain, hs]⟩ (by simp)
  | finished =>
    refine iff_of_false ?_ (by simp)
    rintro ⟨c, hc⟩
    cases c <;> simp [Session.mainStep, hmain] at hc
  | checkStop | announce | drainSignal | stopWatcher | returned | reportError | swapFlag
  | announceWait | wait | finish =>
    exact iff_of_true ⟨.go, by simp [Session.mainStep, hmain]⟩ (by simp)

/-- **`Stop` ends the session**, if every dial and every handshake returns. From any reachable state,
and whatever the watchers and other callers do after `Stop`, the main goroutine takes at most twelve
more steps; it is stuck before it has finished exactly while a dial or a handshake has not returned;
it begins at most the attempt it was about to announce, and says "disconnected" last. -/
theorem stop_ends (pre post : List SessionEvent) (m s : Session)
    (hpre : run (Session.step host port autoReconnect) Session.init pre = some m)
    (hpost : run (Session.step host port autoReconnect) m (.stop :: post) = some s) :
    (post.map SessionEvent.weight).sum ≤ 12 ∧
    s.begun ≤ m.begun + (if m.main = .announce then 1 else 0) ∧
    ((∃ c, (s.mainStep host port autoReconnect c).isSome) ↔ s.main ≠ .finished ∧ ¬s.Blocked) ∧
    (s.main = .finished → ∃ detail, s.statuses.getLast? = some (.disconnected, detail)) := by
  obtain ⟨m', hm', hrest⟩ := run_cons_eq_some.mp hpost
  obtain rfl := Option.some.inj hm'
  -- `Stop` itself changes neither the place nor the attempts
  have hstopped : s.stopped = true ∧ s.due ≤ m.due :=
    run_keeps (I := fun a => a.stopped = true ∧ a.due ≤ m.due)
      (fun a ev a' ha hstep => by
        obtain ⟨h₁, h₂, -⟩ := stopped_step ha.1 hstep
        exact ⟨h₁, h₂.trans ha.2⟩)
      ⟨rfl, le_rfl⟩ hrest
  have hinit : Session.init.Signed := fun h => by simp [Session.init] at h
  have hm : m.Signed := run_keeps (fun _ _ _ => signed_step) hinit hpre
  have hs : s.Signed := run_keeps (fun _ _ _ => signed_step) hm hpost
  refine ⟨?_, ?_, exists_mainStep_iff s hstopped.1, hs⟩
  · have hcost := run_cost (I := fun a => a.stopped = true) (μ := fun a => 12 - a.main.rank)
      (w := SessionEvent.weight) (fun a ev a' ha hstep => ?_) rfl hrest
    · omega
    · obtain ⟨h₁, -, h₃⟩ := stopped_step ha hstep
      have := rank_le a.main
      exact ⟨h₁, by omega⟩
  · have := hstopped.2
    unfold Session.due at this
    omega

end Run

/-- `Stop` just before the second attempt is announced: the attempt is still made. -/
def stoppedLate : List SessionEvent :=
  [.main .go, .main .go, .main .go, .reply (.error "refused"), .main .go, .main .go, .main .go,
   .main .go, .main .go, .main .go]

def stoppedLateRest : List SessionEvent :=
  [.main .go, .networkChanged, .main .go, .reply (.ok ""), .main .go, .reply (.ok "0a0b0c0d"),
   .main .go, .main .stop, .main .go, .main .go, .main .go, .main .go, .main .stop,
   .watcher 0 .stop, .main .go]

def stoppedLateStart : Session := last (Session.step "vpn" "443" true) Session.init stoppedLate

def stoppedLateEnd : Session :=
  last (Session.step "vpn" "443" true) stoppedLateStart (.stop :: stoppedLateRest)

theorem stop_ends_late :
    (run (Session.step "vpn" "443" true) Session.init stoppedLate).isSome ∧
    (run (Session.step "vpn" "443" true) stoppedLateStart (.stop :: stoppedLateRest)).isSome ∧
    stoppedLateEnd.main = .finished ∧ stoppedLateEnd.begun = 2 ∧
    (stoppedLateRest.map SessionEvent.weight).sum ≤ 12 ∧
    ∃ detail, stoppedLateEnd.statuses.getLast? = some (.disconnected, detail) := by
  have hpre : (run (Session.step "vpn" "443" true) Session.init stoppedLate).isSome := by decide
  have hpost : (run (Session.step "vpn" "443" true) stoppedLateStart
    (.stop :: stoppedLateRest)).isSome := by decide
  have h := stop_ends stoppedLate stoppedLateRest stoppedLateStart stoppedLateEnd
    (run_eq_last hpre) (run_eq_last hpost)
  exact ⟨hpre, hpost, by decide, by decide, h.1, h.2.2.2 (by decide)⟩

end ObsidianVPN.Client
