import ObsidianVPN.Lib.Bytes

/-!
# The two lanes of the downlink

A session queues the packets for its client in two channels: latency-sensitive ones in `prio`, bulk
ones (and the overflow of the first lane) in `out`. Its `writeLoop` hands them to `sendOne`. Each
`select` and each hand-over is a step of its own, so that the calls of `enqueue` and the loop can
come between one another at any point.

* `isLatencySensitive`, `Scheduler.enqueue`, `Scheduler.offer`, `Scheduler.loop`: the code; `Loc` is
  where the loop stands;
* `handedPrio`, `putPrio`, `since`, …: what the events of a run say;
* `Turn`: the steps of the loop as a relation;
* `Scheduler.Inv`, **`Inv.step`**: what the queues, the counter and the events have to do with each
  other;
* `Scheduler.left`, **`left_step`**: how many latency-sensitive packets can still go out before the
  next bulk packet;
* **`lanes_fair`**: order within a lane, and the bounds between the lanes.
-/

namespace ObsidianVPN.Server

open ByteStr

def routedSessionQueueSize : ℕ := 1024
def routedPrioQueueSize : ℕ := 256
def routedPrioBurst : ℕ := 64
/-- In nanoseconds. -/
def routedMaxSojourn : ℤ := 100000000
/-- The length of the array `batch` in `writeLoop`. -/
def batchSize : ℕ := 32

/-- A queued packet; `queuedAt` is the field `at` of the source. -/
structure RoutedPacket where
  buf : Bytes
  queuedAt : ℤ
  deriving DecidableEq

/-- The length of the IP header, the length of the packet and the protocol, for a packet with a
complete fixed header. -/
def ipFields (pkt : Bytes) : Option (ℕ × ℕ × UInt8) :=
  if 20 ≤ pkt.length ∧ pkt.getD 0 0 >>> 4 = 4 then
    some ((pkt.getD 0 0 &&& 0x0f).toNat * 4, getBE (slice pkt 2 2), pkt.getD 9 0)
  else if 40 ≤ pkt.length ∧ pkt.getD 0 0 >>> 4 = 6 then
    some (40, 40 + getBE (slice pkt 4 2), pkt.getD 6 0)
  else none

def isLatencySensitive (pkt : Bytes) : Bool :=
  match ipFields pkt with
  | none => false
  | some (ipHdr, ipLen, proto) =>
    if ipHdr < 20 ∨ ipLen < ipHdr ∨ ipLen > pkt.length then false
    else if proto = 1 ∨ proto = 58 then true
    else if proto = 17 then decide (pkt.length ≤ 600)
    else if proto = 6 then
      let l4 := slice pkt ipHdr (ipLen - ipHdr)
      if l4.length < 20 then false
      else
        let tcpHdr := (l4.getD 12 0 >>> 4).toNat * 4
        if tcpHdr < 20 ∨ tcpHdr > l4.length then false else decide (l4.length - tcpHdr = 0)
    else false

/-- Where `writeLoop` stands. -/
inductive Loc where
  /-- At the head of the loop. -/
  | top
  /-- At the blocking `select`. -/
  | select
  /-- Before `sendOne` of a latency-sensitive packet; the bulk packets wait in the batch. -/
  | sendPrio (p : RoutedPacket) (batch : List RoutedPacket)
  /-- In `takeQueued`, with the batch so far. -/
  | taking (batch : List RoutedPacket)
  /-- In `sendPrioWaiting`, before the first packet of the batch. -/
  | flush (batch : List RoutedPacket)
  /-- Before `sendOne` of the first packet of the batch. -/
  | sendOut (batch : List RoutedPacket)
  | drainPrio
  | drainOut
  | stopped

namespace Loc

/-- The packet from `prio` that is on its way to `sendOne`. -/
def held : Loc → List RoutedPacket
  | sendPrio p _ => [p]
  | _ => []

/-- The packets from `out` that are on their way to `sendOne`. -/
def batch : Loc → List RoutedPacket
  | sendPrio _ batch => batch
  | taking batch => batch
  | flush batch => batch
  | sendOut batch => batch
  | _ => []

/-- The loop has not seen `done`. -/
def Running : Loc → Prop
  | drainPrio => False
  | drainOut => False
  | stopped => False
  | _ => True

/-- Where the loop goes on when a packet has been handed over. -/
def next : List RoutedPacket → Loc
  | [] => top
  | p :: rest => flush (p :: rest)

end Loc

structure Scheduler where
  prio : List RoutedPacket
  out : List RoutedPacket
  /-- The channel `done` has been closed. -/
  done : Bool
  prioRun : ℕ
  loc : Loc
  /-- The packets of the calls of `enqueue` that stand before their second `select`. -/
  calls : List RoutedPacket

def newScheduler : Scheduler := ⟨[], [], false, 0, .top, []⟩

inductive LaneEvent where
  /-- The packet goes into `prio` and `enqueue` returns true. -/
  | putPrio (p : RoutedPacket)
  /-- The packet goes into `out` and `enqueue` returns true. -/
  | putOut (p : RoutedPacket)
  /-- `enqueue` returns false. -/
  | refused (p : RoutedPacket)
  /-- `sendOne` of a packet from `prio`, and whether it is sent or dropped as stale. -/
  | handPrio (p : RoutedPacket) (sent : Bool)
  | handOut (p : RoutedPacket) (sent : Bool)
  /-- `sendPrioWaiting` finds `prio` empty. -/
  | sawEmpty
  deriving DecidableEq

/-- The cases of the blocking `select`. -/
inductive Choice where
  | prio
  | out
  | done

namespace Scheduler

/-- `enqueue` up to its second `select`. -/
def enqueue (s : Scheduler) (packet : Bytes) (now : ℤ) : Option LaneEvent × Scheduler :=
  let p : RoutedPacket := ⟨packet, now⟩
  if isLatencySensitive packet ∧ s.prio.length < routedPrioQueueSize then
    (some (.putPrio p), { s with prio := s.prio ++ [p] })
  else (none, { s with calls := s.calls ++ [p] })

/-- The second `select` of the `i`-th call of `enqueue`; when `done` is ready as well, `prefersDone`
chooses. -/
def offer (s : Scheduler) (i : ℕ) (prefersDone : Bool) : Option LaneEvent × Scheduler :=
  match s.calls[i]? with
  | none => (none, s)
  | some p =>
    let calls := s.calls.eraseIdx i
    if s.out.length < routedSessionQueueSize ∧ ¬(s.done ∧ prefersDone) then
      (some (.putOut p), { s with out := s.out ++ [p], calls := calls })
    else (some (.refused p), { s with calls := calls })

end Scheduler

/-- `sendOne`: whether the packet is sent. -/
def sendOne (p : RoutedPacket) (now : ℤ) : Bool := decide (¬ now - p.queuedAt > routedMaxSojourn)

/-- One step of `writeLoop` at the instant `now`. At a `select` whose chosen case is not ready
nothing happens. -/
def Scheduler.loop (s : Scheduler) (choice : Choice) (now : ℤ) : Option LaneEvent × Scheduler :=
  match s.loc with
  | .top =>
    if s.prioRun ≥ routedPrioBurst then
      match s.out with
      | p :: out => (none, { s with out := out, loc := .taking [p] })
      | [] => (none, { s with loc := .select })
    else (none, { s with loc := .select })
  | .select =>
    match choice with
    | .prio =>
      match s.prio with
      | p :: prio =>
        (none, { s with prio := prio, prioRun := s.prioRun + 1, loc := .sendPrio p [] })
      | [] => (none, s)
    | .out =>
      match s.out with
      | p :: out => (none, { s with out := out, loc := .taking [p] })
      | [] => (none, s)
    | .done => if s.done then (none, { s with loc := .drainPrio }) else (none, s)
  | .sendPrio p batch => (some (.handPrio p (sendOne p now)), { s with loc := .next batch })
  | .taking batch =>
    if batch.length < batchSize then
      match s.out with
      | p :: out => (none, { s with out := out, loc := .taking (batch ++ [p]) })
      | [] => (none, { s with loc := .flush batch })
    else (none, { s with loc := .flush batch })
  | .flush batch =>
    if s.prioRun < routedPrioBurst then
      match s.prio with
      | p :: prio =>
        (none, { s with prio := prio, prioRun := s.prioRun + 1, loc := .sendPrio p batch })
      | [] => (some .sawEmpty, { s with loc := .sendOut batch })
    else (none, { s with loc := .sendOut batch })
  | .sendOut batch =>
    match batch with
    | p :: rest => (some (.handOut p (sendOne p now)), { s with prioRun := 0, loc := .next rest })
    | [] => (none, s)
  | .drainPrio =>
    match s.prio with
    | _ :: prio => (none, { s with prio := prio })
    | [] => (none, { s with loc := .drainOut })
  | .drainOut =>
    match s.out with
    | _ :: out => (none, { s with out := out })
    | [] => (none, { s with loc := .stopped })
  | .stopped => (none, s)

inductive LaneAction where
  | enqueue (packet : Bytes) (now : ℤ)
  | offer (i : ℕ) (prefersDone : Bool)
  | loop (choice : Choice) (now : ℤ)
  /-- `Close` closes the channel `done`. -/
  | close

namespace Scheduler

def step (s : Scheduler) : LaneAction → Option LaneEvent × Scheduler
  | .enqueue packet now => s.enqueue packet now
  | .offer i prefersDone => s.offer i prefersDone
  | .loop choice now => s.loop choice now
  | .close => (none, { s with done := true })

/-- The events of a run and the state after it. -/
def run (s : Scheduler) : List LaneAction → List LaneEvent × Scheduler
  | [] => ([], s)
  | a :: actions =>
    ((s.step a).1.toList ++ ((s.step a).2.run actions).1, ((s.step a).2.run actions).2)

end Scheduler

/-! ## Events -/

def putPrio (log : List LaneEvent) : List RoutedPacket :=
  log.filterMap fun | .putPrio p => some p | _ => none

def putOut (log : List LaneEvent) : List RoutedPacket :=
  log.filterMap fun | .putOut p => some p | _ => none

/-- The packets for which `enqueue` has returned true. -/
def enqueued (log : List LaneEvent) : List RoutedPacket :=
  log.filterMap fun | .putPrio p => some p | .putOut p => some p | _ => none

def handedPrio (log : List LaneEvent) : List RoutedPacket :=
  log.filterMap fun | .handPrio p _ => some p | _ => none

def handedOut (log : List LaneEvent) : List RoutedPacket :=
  log.filterMap fun | .handOut p _ => some p | _ => none

/-- The number of packets from `prio` handed over since the last one from `out`. -/
def since (log : List LaneEvent) : ℕ :=
  log.foldl (fun n e => match e with | .handPrio _ _ => n + 1 | .handOut _ _ => 0 | _ => n) 0

def LaneEvent.byLoop : LaneEvent → Bool
  | handPrio _ _ => true
  | handOut _ _ => true
  | sawEmpty => true
  | _ => false

/-- The last thing the loop has done is to find `prio` empty. -/
def JustSawEmpty (log : List LaneEvent) : Prop :=
  (log.filter LaneEvent.byLoop).getLast? = some .sawEmpty

/-- A packet from `out` may go now. -/
def MayPass (log : List LaneEvent) : Prop := JustSawEmpty log ∨ routedPrioBurst ≤ since log

/-- Every packet from `out` has gone when it might. -/
def Turns (log : List LaneEvent) : Prop :=
  ∀ before p sent after, log = before ++ .handOut p sent :: after → MayPass before

section Concat

variable (log : List LaneEvent) (e : LaneEvent)

theorem putPrio_concat : putPrio (log ++ [e]) =
    match e with | .putPrio p => putPrio log ++ [p] | _ => putPrio log := by
  cases e <;> simp [putPrio]

theorem putOut_concat : putOut (log ++ [e]) =
    match e with | .putOut p => putOut log ++ [p] | _ => putOut log := by
  cases e <;> simp [putOut]

theorem handedPrio_concat : handedPrio (log ++ [e]) =
    match e with | .handPrio p _ => handedPrio log ++ [p] | _ => handedPrio log := by
  cases e <;> simp [handedPrio]

theorem handedOut_concat : handedOut (log ++ [e]) =
    match e with | .handOut p _ => handedOut log ++ [p] | _ => handedOut log := by
  cases e <;> simp [handedOut]

theorem handedPrio_cons : handedPrio (e :: log) = handedPrio [e] ++ handedPrio log :=
  List.filterMap_append (l := [e])

theorem handedOut_cons : handedOut (e :: log) = handedOut [e] ++ handedOut log :=
  List.filterMap_append (l := [e])

theorem since_concat : since (log ++ [e]) =
    match e with | .handPrio _ _ => since log + 1 | .handOut _ _ => 0 | _ => since log := by
  simp [since]

/-- What `enqueue` has accepted is what is in the two lanes. -/
theorem enqueued_perm : (enqueued log).Perm (putPrio log ++ putOut log) := by
  induction log with
  | nil => exact .nil
  | cons e log ih =>
    cases e with
    | putPrio p => exact ih.cons p
    | putOut p => exact (ih.cons p).trans List.perm_middle.symm
    | _ => exact ih

end Concat

variable {log : List LaneEvent}

theorem MayPass.concat (h : MayPass log) {e : LaneEvent} (he : e.byLoop = false) :
    MayPass (log ++ [e]) := by
  have hsince : since (log ++ [e]) = since log := by
    rw [since_concat]
    cases e <;> first | rfl | cases he
  refine h.imp (fun hseen => ?_) (fun hburst => hsince ▸ hburst)
  rw [JustSawEmpty, List.filter_append, List.filter_cons_of_neg (by simp [he]), List.filter_nil,
    List.append_nil]
  exact hseen

theorem mayPass_sawEmpty : MayPass (log ++ [.sawEmpty]) := by
  left
  simp [JustSawEmpty, LaneEvent.byLoop]

theorem Turns.concat (h : Turns log) {e : LaneEvent}
    (he : ∀ p sent, e = .handOut p sent → MayPass log) : Turns (log ++ [e]) := by
  intro before p sent after heq
  rcases List.eq_nil_or_concat after with rfl | ⟨after', e', rfl⟩
  · obtain ⟨rfl, hlast⟩ := List.append_inj' heq rfl
    exact he p sent (List.singleton_inj.mp hlast)
  · have hassoc : log ++ [e] = (before ++ .handOut p sent :: after') ++ [e'] := by
      rw [heq, List.concat_eq_append, List.append_assoc, List.cons_append]
    exact h before p sent after' (List.append_inj' hassoc rfl).1

/-! ## The steps of the loop -/

/-- A step of `writeLoop`, with what it needs. -/
inductive Turn (s : Scheduler) : Option LaneEvent → Scheduler → Prop
  | stay : Turn s none s
  | select (hloc : s.loc = .top) (hwhy : s.prioRun < routedPrioBurst ∨ s.out = []) :
      Turn s none { s with loc := .select }
  | takePrio {p prio batch} (hprio : s.prio = p :: prio)
      (hloc : s.loc = .select ∧ batch = [] ∨ s.loc = .flush batch ∧ s.prioRun < routedPrioBurst) :
      Turn s none { s with prio := prio, prioRun := s.prioRun + 1, loc := .sendPrio p batch }
  | takeOut {p out} (batch) (hout : s.out = p :: out)
      (hloc : (s.loc = .top ∨ s.loc = .select) ∧ batch = [] ∨ s.loc = .taking batch) :
      Turn s none { s with out := out, loc := .taking (batch ++ [p]) }
  | flush {batch} (hloc : s.loc = .taking batch) : Turn s none { s with loc := .flush batch }
  | pass {batch} (hloc : s.loc = .flush batch) (hburst : routedPrioBurst ≤ s.prioRun) :
      Turn s none { s with loc := .sendOut batch }
  | sawEmpty {batch} (hloc : s.loc = .flush batch) :
      Turn s (some .sawEmpty) { s with loc := .sendOut batch }
  | handPrio {p batch} (hloc : s.loc = .sendPrio p batch) (sent : Bool) :
      Turn s (some (.handPrio p sent)) { s with loc := .next batch }
  | handOut {p batch} (hloc : s.loc = .sendOut (p :: batch)) (sent : Bool) :
      Turn s (some (.handOut p sent)) { s with prioRun := 0, loc := .next batch }
  | drain (hloc : s.loc = .select) : Turn s none { s with loc := .drainPrio }
  | dropPrio {p prio} (hloc : s.loc = .drainPrio) (hprio : s.prio = p :: prio) :
      Turn s none { s with prio := prio }
  | drained (hloc : s.loc = .drainPrio) : Turn s none { s with loc := .drainOut }
  | dropOut {p out} (hloc : s.loc = .drainOut) (hout : s.out = p :: out) :
      Turn s none { s with out := out }
  | stop (hloc : s.loc = .drainOut) : Turn s none { s with loc := .stopped }

theorem turn_loop (s : Scheduler) (choice : Choice) (now : ℤ) :
    Turn s (s.loop choice now).1 (s.loop choice now).2 := by
  obtain ⟨prio, out, done, prioRun, loc, calls⟩ := s
  unfold Scheduler.loop
  cases loc with
  | top =>
    dsimp only
    split
    · cases out with
      | cons p out => exact .takeOut [] rfl (.inl ⟨.inl rfl, rfl⟩)
      | nil => exact .select rfl (.inr rfl)
    · exact .select rfl (.inl (not_le.mp ‹_›))
  | select =>
    cases choice with
    | prio =>
      cases prio with
      | cons p prio => exact .takePrio rfl (.inl ⟨rfl, rfl⟩)
      | nil => exact .stay
    | out =>
      cases out with
      | cons p out => exact .takeOut [] rfl (.inl ⟨.inr rfl, rfl⟩)
      | nil => exact .stay
    | done =>
      cases done with
      | true => exact .drain rfl
      | false => exact .stay
  | sendPrio p batch => exact .handPrio rfl _
  | taking batch =>
    dsimp only
    split
    · cases out with
      | cons p out => exact .takeOut batch rfl (.inr rfl)
      | nil => exact .flush rfl
    · exact .flush rfl
  | flush batch =>
    dsimp only
    split
    · cases prio with
      | cons p prio => exact .takePrio rfl (.inr ⟨rfl, ‹_›⟩)
      | nil => exact .sawEmpty rfl
    · exact .pass rfl (not_lt.mp ‹_›)
  | sendOut batch =>
    cases batch with
    | cons p rest => exact .handOut rfl _
    | nil => exact .stay
  | drainPrio =>
    cases prio with
    | cons p prio => exact .dropPrio rfl rfl
    | nil => exact .drained rfl
  | drainOut =>
    cases out with
    | cons p out => exact .dropOut rfl rfl
    | nil => exact .stop rfl
  | stopped => exact .stay

/-! ## The invariant -/

/-- What has gone through a lane: the packets handed over, those on their way, those lost to `drain`
and those still queued are those put there, in this order. -/
def LaneKept (running : Prop) (handed held queue put : List RoutedPacket) : Prop :=
  ∃ lost, handed ++ held ++ lost ++ queue = put ∧ (running → lost = [])

namespace LaneKept

variable {running : Prop} {handed held queue put : List RoutedPacket} {p : RoutedPacket}

theorem isPrefix (h : LaneKept running handed held queue put) : handed <+: put := by
  obtain ⟨lost, rfl, -⟩ := h
  rw [List.append_assoc, List.append_assoc]
  exact List.prefix_append _ _

theorem enqueue (h : LaneKept running handed held queue put) :
    LaneKept running handed held (queue ++ [p]) (put ++ [p]) := by
  obtain ⟨lost, rfl, hlost⟩ := h
  exact ⟨lost, by simp, hlost⟩

theorem take (hrun : running) (h : LaneKept running handed held (p :: queue) put) :
    LaneKept running handed (held ++ [p]) queue put := by
  obtain ⟨lost, rfl, hlost⟩ := h
  exact ⟨[], by simp [hlost hrun], fun _ => rfl⟩

theorem hand (h : LaneKept running handed (p :: held) queue put) :
    LaneKept running (handed ++ [p]) held queue put := by
  obtain ⟨lost, rfl, hlost⟩ := h
  exact ⟨lost, by simp, hlost⟩

theorem stop (h : LaneKept running handed held queue put) :
    LaneKept False handed held queue put := by
  obtain ⟨lost, rfl, -⟩ := h
  exact ⟨lost, rfl, False.elim⟩

theorem drop (h : LaneKept False handed held (p :: queue) put) :
    LaneKept False handed held queue put := by
  obtain ⟨lost, rfl, -⟩ := h
  exact ⟨lost ++ [p], by simp, False.elim⟩

end LaneKept

/-- The state fits the events that have led to it. -/
structure Scheduler.Inv (s : Scheduler) (log : List LaneEvent) : Prop where
  prio : LaneKept s.loc.Running (handedPrio log) s.loc.held s.prio (putPrio log)
  out : LaneKept s.loc.Running (handedOut log) s.loc.batch s.out (putOut log)
  counted : s.prioRun = since log + s.loc.held.length
  ready : ∀ batch, s.loc = .sendOut batch → MayPass log
  turns : Turns log

namespace Scheduler.Inv

variable {s s' : Scheduler}

theorem init : newScheduler.Inv [] where
  prio := ⟨[], rfl, fun _ => rfl⟩
  out := ⟨[], rfl, fun _ => rfl⟩
  counted := rfl
  ready := nofun
  turns := by simp [Turns]

/-- A step that makes an event, with what the event adds to the lanes written out. -/
theorem event {e : LaneEvent} (hinv : s.Inv log)
    (h : LaneKept s'.loc.Running
        (match e with | .handPrio p _ => handedPrio log ++ [p] | _ => handedPrio log)
        s'.loc.held s'.prio (match e with | .putPrio p => putPrio log ++ [p] | _ => putPrio log) ∧
      LaneKept s'.loc.Running
        (match e with | .handOut p _ => handedOut log ++ [p] | _ => handedOut log)
        s'.loc.batch s'.out (match e with | .putOut p => putOut log ++ [p] | _ => putOut log) ∧
      s'.prioRun = (match e with
        | .handPrio _ _ => since log + 1 | .handOut _ _ => 0 | _ => since log) +
          s'.loc.held.length ∧
      (∀ batch, s'.loc = .sendOut batch → MayPass (log ++ [e])) ∧
      ∀ p sent, e = .handOut p sent → MayPass log) : s'.Inv (log ++ [e]) := by
  obtain ⟨hprio, hout, hcounted, hready, hpass⟩ := h
  refine ⟨?_, ?_, ?_, hready, hinv.turns.concat hpass⟩
  · rwa [handedPrio_concat, putPrio_concat]
  · rwa [handedOut_concat, putOut_concat]
  · rwa [since_concat]

/-- **One step of the loop.** -/
theorem turn {e : Option LaneEvent} (hinv : s.Inv log) (h : Turn s e s') :
    s'.Inv (log ++ e.toList) := by
  have hnone : log ++ (none : Option LaneEvent).toList = log := List.append_nil log
  obtain ⟨prio, out, done, prioRun, loc, calls⟩ := s
  obtain ⟨hprio, hout, hcounted, hready, hturns⟩ := id hinv
  -- once the place is known, what the loop holds is known by computation
  cases h with
  | stay => rwa [hnone]
  | select hloc =>
    cases hloc
    rw [hnone]
    exact ⟨hprio, hout, hcounted, nofun, hturns⟩
  | takePrio hqueue hloc =>
    cases hqueue
    rw [hnone]
    rcases hloc with ⟨hloc, rfl⟩ | ⟨hloc, -⟩ <;> cases hloc <;>
      exact ⟨hprio.take trivial, hout, congrArg (· + 1) hcounted, nofun, hturns⟩
  | takeOut batch hqueue hloc =>
    cases hqueue
    rw [hnone]
    rcases hloc with ⟨hloc | hloc, rfl⟩ | hloc <;> cases hloc <;>
      exact ⟨hprio, hout.take trivial, hcounted, nofun, hturns⟩
  | flush hloc =>
    cases hloc
    rw [hnone]
    exact ⟨hprio, hout, hcounted, nofun, hturns⟩
  | pass hloc hburst =>
    cases hloc
    have hsince : routedPrioBurst ≤ since log := hburst.trans hcounted.le
    rw [hnone]
    exact ⟨hprio, hout, hcounted, fun _ _ => .inr hsince, hturns⟩
  | sawEmpty hloc =>
    cases hloc
    exact hinv.event ⟨hprio, hout, hcounted, fun _ _ => mayPass_sawEmpty, nofun⟩
  | @handPrio p batch hloc sent =>
    cases hloc
    cases batch <;>
      exact hinv.event ⟨hprio.hand, hout, hcounted, nofun, nofun⟩
  | @handOut p batch hloc sent =>
    cases hloc
    cases batch <;>
      exact hinv.event ⟨hprio, hout.hand, rfl, nofun, fun _ _ _ => hready _ rfl⟩
  | drain hloc =>
    cases hloc
    rw [hnone]
    exact ⟨hprio.stop, hout.stop, hcounted, nofun, hturns⟩
  | dropPrio hloc hqueue =>
    cases hloc
    cases hqueue
    rw [hnone]
    exact ⟨hprio.drop, hout, hcounted, nofun, hturns⟩
  | drained hloc =>
    cases hloc
    rw [hnone]
    exact ⟨hprio, hout, hcounted, nofun, hturns⟩
  | dropOut hloc hqueue =>
    cases hloc
    cases hqueue
    rw [hnone]
    exact ⟨hprio, hout.drop, hcounted, nofun, hturns⟩
  | stop hloc =>
    cases hloc
    rw [hnone]
    exact ⟨hprio, hout, hcounted, nofun, hturns⟩

theorem enqueue (hinv : s.Inv log) (packet : Bytes) (now : ℤ) :
    (s.enqueue packet now).2.Inv (log ++ (s.enqueue packet now).1.toList) := by
  obtain ⟨hprio, hout, hcounted, hready, hturns⟩ := id hinv
  dsimp only [Scheduler.enqueue]
  split
  · exact hinv.event
      ⟨hprio.enqueue, hout, hcounted, fun batch hloc => (hready batch hloc).concat rfl, nofun⟩
  · rw [Option.toList_none, List.append_nil]
    exact ⟨hprio, hout, hcounted, hready, hturns⟩

theorem offer (hinv : s.Inv log) (i : ℕ) (prefersDone : Bool) :
    (s.offer i prefersDone).2.Inv (log ++ (s.offer i prefersDone).1.toList) := by
  obtain ⟨hprio, hout, hcounted, hready, hturns⟩ := id hinv
  unfold Scheduler.offer
  cases s.calls[i]? with
  | none =>
    rw [Option.toList_none, List.append_nil]
    exact hinv
  | some p =>
    dsimp only
    split
    · exact hinv.event
        ⟨hprio, hout.enqueue, hcounted, fun batch hloc => (hready batch hloc).concat rfl, nofun⟩
    · exact hinv.event
        ⟨hprio, hout, hcounted, fun batch hloc => (hready batch hloc).concat rfl, nofun⟩

/-- **One step.** -/
theorem step (hinv : s.Inv log) (a : LaneAction) :
    (s.step a).2.Inv (log ++ (s.step a).1.toList) := by
  cases a with
  | enqueue packet now => exact hinv.enqueue packet now
  | offer i prefersDone => exact hinv.offer i prefersDone
  | loop choice now => exact hinv.turn (turn_loop s choice now)
  | close =>
    rw [show (s.step .close).1.toList = [] from rfl, List.append_nil]
    exact ⟨hinv.prio, hinv.out, hinv.counted, hinv.ready, hinv.turns⟩

theorem run (hinv : s.Inv log) (actions : List LaneAction) :
    (s.run actions).2.Inv (log ++ (s.run actions).1) := by
  induction actions generalizing s log with
  | nil => exact (List.append_nil log).symm ▸ hinv
  | cons a actions ih =>
    have hrest := ih (hinv.step a)
    rwa [List.append_assoc] at hrest

end Scheduler.Inv

/-! ## Between two bulk packets -/

namespace Scheduler

variable {s s' : Scheduler}

/-- A bulk packet is waiting, or the loop is over. -/
def Waiting (s : Scheduler) : Prop := s.out ≠ [] ∨ s.loc.batch ≠ [] ∨ ¬ s.loc.Running

/-- The number of packets from `prio` that can still be handed over before one from `out`, when one
is waiting. -/
def left (s : Scheduler) : ℕ :=
  match s.loc with
  | .top => routedPrioBurst - s.prioRun
  -- the `select` may take one more after the burst
  | .select => max 1 (routedPrioBurst - s.prioRun)
  | .sendPrio _ _ => 1 + (routedPrioBurst - s.prioRun)
  | .taking _ => routedPrioBurst - s.prioRun
  | .flush _ => routedPrioBurst - s.prioRun
  | _ => 0

theorem Inv.left_le (hinv : s.Inv log) : s.left ≤ routedPrioBurst := by
  have hcounted := hinv.counted
  unfold left
  cases hloc : s.loc with
  | sendPrio p batch =>
    -- the packet on its way is counted already
    rw [hloc] at hcounted
    have hpos : 1 ≤ s.prioRun := hcounted ▸ Nat.le_add_left 1 (since log)
    dsimp only [routedPrioBurst]
    omega
  | select => exact max_le (by decide) (Nat.sub_le _ _)
  | _ => first | exact Nat.sub_le _ _ | exact Nat.zero_le _

theorem left_turn {e : Option LaneEvent} (h : Turn s e s') (hwait : s.Waiting)
    (hnone : handedOut e.toList = []) :
    s'.Waiting ∧ s'.left + (handedPrio e.toList).length ≤ s.left := by
  obtain ⟨prio, out, done, prioRun, loc, calls⟩ := s
  cases h with
  | stay => exact ⟨hwait, le_rfl⟩
  | select hloc hwhy =>
    cases hloc
    have hout : out ≠ [] := by simpa [Waiting, Loc.batch, Loc.Running] using hwait
    refine ⟨.inl hout, ?_⟩
    have hroom : prioRun < routedPrioBurst := hwhy.resolve_right hout
    show max 1 (routedPrioBurst - prioRun) ≤ routedPrioBurst - prioRun
    omega
  | takePrio hqueue hloc =>
    cases hqueue
    rcases hloc with ⟨hloc, rfl⟩ | ⟨hloc, hroom⟩ <;> cases hloc
    · refine ⟨hwait, ?_⟩
      show 1 + (routedPrioBurst - (prioRun + 1)) ≤ max 1 (routedPrioBurst - prioRun)
      omega
    · refine ⟨hwait, ?_⟩
      show 1 + (routedPrioBurst - (prioRun + 1)) ≤ routedPrioBurst - prioRun
      dsimp only at hroom
      omega
  | takeOut batch hqueue hloc =>
    refine ⟨.inr (.inl (by simp [Loc.batch])), ?_⟩
    rcases hloc with ⟨hloc | hloc, rfl⟩ | hloc <;> cases hloc
    · exact le_rfl
    · exact le_max_right _ _
    · exact le_rfl
  | flush hloc =>
    cases hloc
    exact ⟨hwait, le_rfl⟩
  | pass hloc =>
    cases hloc
    exact ⟨hwait, Nat.zero_le _⟩
  | sawEmpty hloc =>
    cases hloc
    exact ⟨hwait, Nat.zero_le _⟩
  | @handPrio p batch hloc sent =>
    cases hloc
    cases batch <;> exact ⟨hwait, (Nat.add_comm _ _).le⟩
  | handOut hloc sent => cases hnone
  | drain hloc => exact ⟨.inr (.inr id), Nat.zero_le _⟩
  | dropPrio hloc =>
    cases hloc
    exact ⟨.inr (.inr id), le_rfl⟩
  | drained hloc => exact ⟨.inr (.inr id), Nat.zero_le _⟩
  | dropOut hloc =>
    cases hloc
    exact ⟨.inr (.inr id), le_rfl⟩
  | stop hloc => exact ⟨.inr (.inr id), Nat.zero_le _⟩

/-- **One step**: every packet from `prio` handed over is one fewer that may still go. -/
theorem left_step (a : LaneAction) (hwait : s.Waiting)
    (hnone : handedOut (s.step a).1.toList = []) :
    (s.step a).2.Waiting ∧
      (s.step a).2.left + (handedPrio (s.step a).1.toList).length ≤ s.left := by
  cases a with
  | enqueue packet now =>
    dsimp only [step, enqueue]
    split <;> exact ⟨hwait, le_rfl⟩
  | offer i prefersDone =>
    dsimp only [step, offer]
    cases s.calls[i]? with
    | none => exact ⟨hwait, le_rfl⟩
    | some p =>
      dsimp only
      split
      · exact ⟨.inl (by simp), le_rfl⟩
      · exact ⟨hwait, le_rfl⟩
  | loop choice now => exact left_turn (turn_loop s choice now) hwait hnone
  | close => exact ⟨hwait, le_rfl⟩

/-- Until the next packet from `out`, only as many packets from `prio` go out as may. -/
theorem handedPrio_le_left (actions : List LaneAction) (hwait : s.Waiting) {ext : List LaneEvent}
    (hext : ext <+: (s.run actions).1) (hnone : handedOut ext = []) :
    (handedPrio ext).length ≤ s.left := by
  induction actions generalizing s ext with
  | nil =>
    rw [List.prefix_nil.mp hext]
    exact Nat.zero_le _
  | cons a actions ih =>
    change ext <+: (s.step a).1.toList ++ ((s.step a).2.run actions).1 at hext
    have hstep := left_step a hwait
    cases hevent : (s.step a).1 with
    | none =>
      rw [hevent] at hext hstep
      obtain ⟨hwait', hleft⟩ := hstep rfl
      exact (ih hwait' hext hnone).trans hleft
    | some e =>
      rw [hevent] at hext hstep
      cases ext with
      | nil => exact Nat.zero_le _
      | cons e' ext =>
        obtain ⟨rfl, htail⟩ := List.cons_prefix_cons.mp hext
        rw [handedOut_cons] at hnone
        obtain ⟨hfirst, hlater⟩ := List.append_eq_nil_iff.mp hnone
        obtain ⟨hwait', hleft⟩ := hstep hfirst
        have hrest := ih hwait' htail hlater
        rw [handedPrio_cons, List.length_append]
        exact (Nat.add_comm _ _).trans_le ((Nat.add_le_add_right hrest _).trans hleft)

end Scheduler

/-- **The two lanes of a session.** In every run no accepted packet is handed over twice and each
lane is handed over in the order in which it was filled. From a state with a packet in `out` at most
a burst of packets from `prio` goes before the next one from `out`. A packet from `out` goes only
when `prio` has just been seen empty or a burst of packets from `prio` has gone since the last
one. -/
theorem lanes_fair (actions : List LaneAction) :
    let log := (newScheduler.run actions).1
    let s := (newScheduler.run actions).2
    (handedPrio log ++ handedOut log).Subperm (enqueued log) ∧
      handedPrio log <+: putPrio log ∧ handedOut log <+: putOut log ∧
      (s.out ≠ [] → ∀ more ext, ext <+: (s.run more).1 → handedOut ext = [] →
        (handedPrio ext).length ≤ routedPrioBurst) ∧
      ∀ before p sent after, log = before ++ .handOut p sent :: after →
        JustSawEmpty before ∨ routedPrioBurst ≤ since before := by
  intro log s
  have hinv : s.Inv log := Scheduler.Inv.init.run actions
  have hprio := hinv.prio.isPrefix
  have hout := hinv.out.isPrefix
  refine ⟨?_, hprio, hout, ?_, hinv.turns⟩
  · have hlanes : (handedPrio log ++ handedOut log).Subperm (putPrio log ++ putOut log) :=
      (hprio.sublist.append hout.sublist).subperm
    exact hlanes.trans (enqueued_perm log).symm.subperm
  · intro hwaiting more ext hext hnone
    exact (Scheduler.handedPrio_le_left more (.inl hwaiting) hext hnone).trans hinv.left_le

end ObsidianVPN.Server
