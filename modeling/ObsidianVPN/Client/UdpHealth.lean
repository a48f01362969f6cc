import ObsidianVPN.Lib.Bytes
import ObsidianVPN.Lib.Machine

/-!
# The health monitor of the UDP path

`runConnection` sends data over UDP as long as `udpActive` says so. Three goroutines share atomic
variables: `copyTunToData` notes a data send unless another one is noted already, `Recv` notes the
last authenticated datagram, and the monitor looks at both every two seconds. It reports a stalled
path, falls back to TCP, or takes UDP up again. Each step below is one operation on a shared variable,
or one reading of the clock.

* `decideUDPHealth`, `Health`, `Health.step`: the decision and the goroutines;
* `Mark`: the history of the notes; `Marked`: what the variable of the code says about it;
* `Early`, `TickOk`: what the monitor may rely on in the middle of a tick; `Health.Inv`: the
  invariant, `Health.Inv.step`: every step keeps it;
* **`dead_iff`**: a tick declares the path dead exactly if UDP was active, the send that was noted
  last, and not forgotten since, was noted eight seconds before the tick or earlier, and no datagram
  authenticated at that time or later has been seen. The sender must not be held up for eight seconds
  between its two operations.
-/

namespace ObsidianVPN.Client

open ByteStr Machine

/-! ## The decision -/

def udpProbeAfter : ℤ := 2500 * 10 ^ 6
def udpDeadAfter : ℤ := 8 * second

inductive UDPHealthAction where
  | none
  | probe
  | failover
  | reconnect
  deriving DecidableEq, Repr

def decideUDPHealth (silent : ℤ) (everReceived active : Bool) : UDPHealthAction :=
  if !active then .none
  else if silent ≥ udpDeadAfter then (if everReceived then .reconnect else .failover)
  else if silent ≥ udpProbeAfter then .probe
  else .none

/-- The path is given up. -/
def UDPHealthAction.Dead : UDPHealthAction → Prop
  | .failover | .reconnect => True
  | _ => False

theorem decideUDPHealth_dead (silent : ℤ) (everReceived active : Bool) :
    (decideUDPHealth silent everReceived active).Dead ↔ active = true ∧ udpDeadAfter ≤ silent := by
  unfold decideUDPHealth
  cases active with
  | false => simp [UDPHealthAction.Dead]
  | true =>
    by_cases hdead : silent ≥ udpDeadAfter
    · cases everReceived <;> simp [hdead, UDPHealthAction.Dead]
    · by_cases hprobe : silent ≥ udpProbeAfter
      · simp [hdead, hprobe, UDPHealthAction.Dead]
      · simp [hdead, hprobe, UDPHealthAction.Dead]

/-! ## The goroutines -/

inductive DataProtocol where
  | udp
  | tcp
  deriving DecidableEq, Repr

/-- What becomes of the noted send: the sender notes the time of one, or the monitor forgets it
because UDP is given up or taken up again. -/
inductive Mark where
  | noted (nano : ℤ)
  | forgotten
  deriving DecidableEq, Repr

/-- What the monitor has read in a tick. The pending send and the notes when the tick began, and the
datagrams authenticated when it looked, are kept besides. -/
structure Tick where
  now : ℤ
  before : ℤ
  marks : List Mark
  active : Bool
  authRecv : ℤ
  seen : List ℤ

/-- The end of a tick. -/
structure Verdict extends Tick where
  pending : ℤ
  action : UDPHealthAction

/-- What the monitor does next. -/
inductive Monitor where
  | wait
  | loadActive (now before : ℤ) (marks : List Mark)
  | loadAuth (now before : ℤ) (marks : List Mark) (active : Bool)
  | loadPending (k : Tick)
  | swapPending (k : Tick) (pending : ℤ)
  | decide (k : Tick)
  | failActive
  | failProto
  | failPending
  | restoreActive
  | restorePending
  | restoreProto
  | exited

/-- What `copyTunToData` does next. -/
inductive Sender where
  | loadActive
  | send
  | loadPending
  | readClock
  | swapPending (nano : ℤ)
  | failActive
  | failProto
  | relay

/-- What `SendWithBuffer` returns. -/
inductive SendResult where
  | ok
  | temporary
  | failed
  deriving DecidableEq, Repr

/-- The shared variables, the clock, the goroutines, and what has happened: the times at which a
data send has returned, the notes, the times at which a datagram has been authenticated, and the
verdicts. -/
structure Health where
  clock : ℤ
  udpActive : Bool
  udpPendingNano : ℤ
  lastAuthRecvNano : ℤ
  activeProto : DataProtocol
  udpFailCount : ℕ
  ticks : ℕ
  probes : ℕ
  stalled : Bool
  monitor : Monitor
  sender : Sender
  /-- The time that `Recv` has read and not stored yet. -/
  receiver : Option ℤ
  sendTimes : List ℤ
  marks : List Mark
  authTimes : List ℤ
  verdicts : List Verdict

inductive HealthEvent where
  | time (d : ℕ)
  | monitor
  | sender (r : SendResult)
  | receiver

namespace Health

/-- The state in which the goroutines start, at the time `now`. -/
def init (now : ℤ) : Health :=
  { clock := now
    udpActive := true
    udpPendingNano := 0
    lastAuthRecvNano := 0
    activeProto := .udp
    udpFailCount := 0
    ticks := 0
    probes := 0
    stalled := false
    monitor := .wait
    sender := .loadActive
    receiver := none
    sendTimes := []
    marks := []
    authTimes := []
    verdicts := [] }

section Steps

variable (udpStartNano : ℤ)

/-- The second look at the pending send, and the decision. -/
def verdict (h : Health) (k : Tick) : Verdict where
  toTick := k
  pending := h.udpPendingNano
  action := decideUDPHealth
    (if k.active ∧ h.udpPendingNano ≠ 0 then k.now - h.udpPendingNano else 0)
    (k.authRecv > udpStartNano) k.active

/-- What follows from a verdict. -/
def act (h : Health) (v : Verdict) : Health :=
  match v.action with
  | .probe => { h with probes := h.probes + 1, monitor := .wait }
  | .failover => { h with monitor := .failActive }
  | .reconnect => { h with stalled := true, monitor := .exited }
  | .none =>
    if !v.active then
      { h with
        probes := h.probes + 1
        monitor := if v.now - v.authRecv < 3 * second then .restoreActive else .wait }
    else { h with probes := if h.ticks % 8 = 0 then h.probes + 1 else h.probes, monitor := .wait }

def monitorStep (h : Health) : Option Health :=
  match h.monitor with
  | .wait => some { h with
      ticks := h.ticks + 1, monitor := .loadActive h.clock h.udpPendingNano h.marks }
  | .loadActive now before marks => some { h with
      monitor := .loadAuth now before marks h.udpActive }
  | .loadAuth now before marks active => some { h with
      monitor := .loadPending ⟨now, before, marks, active, h.lastAuthRecvNano, h.authTimes⟩ }
  | .loadPending k =>
    if h.udpPendingNano ≠ 0 ∧ k.authRecv ≥ h.udpPendingNano then
      some { h with monitor := .swapPending k h.udpPendingNano }
    else some { h with monitor := .decide k }
  | .swapPending k pending => some { h with
      udpPendingNano := if h.udpPendingNano = pending then 0 else h.udpPendingNano
      monitor := .decide k }
  | .decide k =>
    let v := h.verdict udpStartNano k
    some (act { h with verdicts := h.verdicts ++ [v] } v)
  | .failActive => some { h with udpActive := false, monitor := .failProto }
  | .failProto => some { h with activeProto := .tcp, monitor := .failPending }
  | .failPending => some { h with
      udpPendingNano := 0, marks := h.marks ++ [.forgotten], monitor := .wait }
  | .restoreActive => some { h with udpActive := true, monitor := .restorePending }
  | .restorePending => some { h with
      udpPendingNano := 0, marks := h.marks ++ [.forgotten], monitor := .restoreProto }
  | .restoreProto => some { h with activeProto := .udp, monitor := .wait }
  | .exited => none

/-- A step of `copyTunToData`; a packet is at hand whenever it starts over. -/
def senderStep (h : Health) (r : SendResult) : Health :=
  match h.sender with
  | .loadActive => { h with sender := if h.udpActive then .send else .relay }
  | .send =>
    match r with
    | .ok => { h with
        udpFailCount := 0, sendTimes := h.sendTimes ++ [h.clock], sender := .loadPending }
    | .temporary => { h with sender := .loadActive }
    | .failed => { h with
        udpFailCount := h.udpFailCount + 1
        sender := if h.udpFailCount + 1 ≥ 15 then .failActive else .relay }
  | .loadPending => { h with sender := if h.udpPendingNano = 0 then .readClock else .loadActive }
  | .readClock => { h with sender := .swapPending h.clock }
  | .swapPending nano => { h with
      udpPendingNano := if h.udpPendingNano = 0 then nano else h.udpPendingNano
      marks := if h.udpPendingNano = 0 then h.marks ++ [.noted nano] else h.marks
      sender := .loadActive }
  | .failActive => { h with udpActive := false, sender := .failProto }
  | .failProto => { h with activeProto := .tcp, sender := .relay }
  | .relay => { h with sender := .loadActive }

/-- A step of `Recv` for an authenticated datagram. -/
def receiverStep (h : Health) : Health :=
  match h.receiver with
  | none => { h with receiver := some h.clock }
  | some nano => { h with
      lastAuthRecvNano := nano, authTimes := h.authTimes ++ [nano], receiver := none }

def step (h : Health) : HealthEvent → Option Health
  | .time d => some { h with clock := h.clock + d }
  | .monitor => h.monitorStep udpStartNano
  | .sender r => some (h.senderStep r)
  | .receiver => some h.receiverStep

end Steps

end Health

/-! ## A tick while the sender goes on -/

/-- Before the monitor swaps: the pending send is the one it began with, or it is recent. -/
def Early (now before pending : ℤ) : Prop :=
  (before ≠ 0 → pending = before) ∧
    (before = 0 → pending = 0 ∨ now < pending + udpDeadAfter)

/-- After the first look, when the pending send has not been answered. -/
structure Unanswered (k : Tick) (pending : ℤ) : Prop where
  before_ne : k.before ≠ 0
  pending_eq : pending = k.before
  authRecv_lt : k.authRecv < k.before

/-- After the first look, when there was no pending send or it has been answered. -/
structure Answered (k : Tick) (pending : ℤ) : Prop where
  before : k.before ≠ 0 → k.before ≤ k.authRecv
  pending : pending = 0 ∨ k.now < pending + udpDeadAfter

/-- What holds in the middle of a tick. -/
def TickOk (clock pending : ℤ) : Monitor → Prop
  | .loadActive now before _ => now ≤ clock ∧ Early now before pending
  | .loadAuth now before _ _ => now ≤ clock ∧ Early now before pending
  | .loadPending k => k.now ≤ clock ∧ Early k.now k.before pending
  | .swapPending k p => k.now ≤ clock ∧ pending = p ∧ p ≠ 0 ∧ p ≤ k.authRecv ∧
      (k.before ≠ 0 → k.before = p)
  | .decide k => k.now ≤ clock ∧ (Unanswered k pending ∨ Answered k pending)
  | _ => True

theorem TickOk.time {clock clock' pending : ℤ} {m : Monitor} (h : TickOk clock pending m)
    (hle : clock ≤ clock') : TickOk clock' pending m := by
  cases m <;> simp only [TickOk] at h ⊢
  all_goals exact ⟨h.1.trans hle, h.2⟩

/-- The sender notes a send in the middle of a tick, soon after it has read the clock. -/
theorem TickOk.noted {clock nano : ℤ} {m : Monitor} (h : TickOk clock 0 m)
    (hprompt : clock < nano + udpDeadAfter) : TickOk clock nano m := by
  have hearly : ∀ {now before : ℤ}, now ≤ clock → Early now before 0 → Early now before nano :=
    fun hnow he => ⟨fun hne => absurd (he.1 hne).symm hne, fun _ => .inr (by omega)⟩
  cases m with
  | loadActive now before marks => exact ⟨h.1, hearly h.1 h.2⟩
  | loadAuth now before marks active => exact ⟨h.1, hearly h.1 h.2⟩
  | loadPending k => exact ⟨h.1, hearly h.1 h.2⟩
  | swapPending k p => exact absurd h.2.1.symm h.2.2.1
  | decide k =>
    refine ⟨h.1, .inr ?_⟩
    rcases h.2 with hun | hans
    · exact absurd hun.pending_eq.symm hun.before_ne
    · exact ⟨hans.before, .inr (by have := h.1; omega)⟩
  | _ => trivial

/-- What a verdict is worth. -/
structure Verdict.Right (v : Verdict) : Prop where
  dead_iff : v.action.Dead ↔ v.active = true ∧ v.before ≠ 0 ∧ v.before + udpDeadAfter ≤ v.now ∧
    v.authRecv < v.before

/-- **The decision of a tick**, whatever the sender has done since it began. -/
theorem decide_right {k : Tick} {pending : ℤ} (h : Unanswered k pending ∨ Answered k pending)
    (everReceived : Bool) :
    (Verdict.mk k pending (decideUDPHealth
      (if k.active ∧ pending ≠ 0 then k.now - pending else 0) everReceived k.active)).Right := by
  refine ⟨?_⟩
  rw [decideUDPHealth_dead]
  rcases h with ⟨hne, rfl, hlt⟩ | ⟨hbefore, hpending⟩
  · constructor
    · rintro ⟨hactive, hdead⟩
      rw [if_pos ⟨hactive, hne⟩] at hdead
      exact ⟨hactive, hne, by dsimp only; omega, hlt⟩
    · rintro ⟨hactive, -, hdead, -⟩
      rw [if_pos ⟨hactive, hne⟩]
      exact ⟨hactive, by dsimp only at hdead; omega⟩
  · constructor
    · rintro ⟨hactive, hdead⟩
      exfalso
      have hpos : 0 < udpDeadAfter := by decide
      split at hdead <;> omega
    · rintro ⟨-, hne, -, hlt⟩
      exact absurd (hbefore hne) (not_le.mpr hlt)

/-! ## The invariant -/

/-- A data send has returned by the given time. -/
def SentBy (sendTimes : List ℤ) (nano : ℤ) : Prop := ∃ t ∈ sendTimes, t ≤ nano

theorem SentBy.mono {l : List ℤ} {nano nano' : ℤ} (h : SentBy l nano) (more : List ℤ)
    (hle : nano ≤ nano') : SentBy (l ++ more) nano' := by
  obtain ⟨t, ht, hnano⟩ := h
  exact ⟨t, List.mem_append_left more ht, hnano.trans hle⟩

/-- The stored time is the largest of those noted, and 0 if there is none. -/
structure LastOf (authTimes : List ℤ) (nano : ℤ) : Prop where
  le : ∀ a ∈ authTimes, a ≤ nano
  mem : nano = 0 ∨ nano ∈ authTimes

/-- What a pending send says about the notes: it is the last one, and if the last one is not pending
any more it has been answered. -/
structure Marked (marks : List Mark) (authTimes : List ℤ) (pending : ℤ) : Prop where
  noted : pending ≠ 0 → 0 < pending ∧ marks.getLast? = some (.noted pending)
  answered : ∀ n, marks.getLast? = some (.noted n) → pending ≠ n → ∃ a ∈ authTimes, n ≤ a

theorem Marked.mono {marks : List Mark} {l l' : List ℤ} {pending : ℤ} (h : Marked marks l pending)
    (hle : l <+: l') : Marked marks l' pending := by
  refine ⟨h.noted, fun n hlast hne => ?_⟩
  obtain ⟨a, ha, hn⟩ := h.answered n hlast hne
  exact ⟨a, hle.subset ha, hn⟩

theorem marked_forgotten (marks : List Mark) (l : List ℤ) : Marked (marks ++ [.forgotten]) l 0 := by
  refine ⟨fun hne => absurd rfl hne, fun n hlast => ?_⟩
  simp at hlast

theorem marked_noted (marks : List Mark) (l : List ℤ) {nano : ℤ} (hpos : 0 < nano) :
    Marked (marks ++ [.noted nano]) l nano := by
  refine ⟨fun _ => ⟨hpos, by simp⟩, fun n hlast hne => ?_⟩
  obtain rfl : nano = n := by simpa using hlast
  exact absurd rfl hne

/-- The pending send is answered. -/
theorem Marked.cleared {marks : List Mark} {l : List ℤ} {pending a : ℤ} (h : Marked marks l pending)
    (ha : a ∈ l) (hle : pending ≤ a) : Marked marks l 0 := by
  refine ⟨fun hne => absurd rfl hne, fun n hlast _ => ?_⟩
  by_cases heq : pending = n
  · exact ⟨a, ha, heq ▸ hle⟩
  · exact h.answered n hlast heq

/-- After a noted send another one is noted only when it has been answered or forgotten. -/
def Mark.Follows (authTimes : List ℤ) : Mark → Mark → Prop
  | .noted n, .noted _ => ∃ a ∈ authTimes, n ≤ a
  | _, _ => True

theorem Mark.Follows.mono {l l' : List ℤ} (hle : l <+: l') {x y : Mark} (h : x.Follows l y) :
    x.Follows l' y := by
  cases x with
  | forgotten => trivial
  | noted n =>
    cases y with
    | forgotten => trivial
    | noted m =>
      obtain ⟨a, ha, hn⟩ := h
      exact ⟨a, hle.subset ha, hn⟩

/-- One more mark. -/
theorem follows_concat {marks : List Mark} {l : List ℤ} (h : marks.IsChain (Mark.Follows l))
    {x : Mark} (hx : ∀ y ∈ marks.getLast?, Mark.Follows l y x) :
    (marks ++ [x]).IsChain (Mark.Follows l) := by
  refine List.isChain_append.mpr ⟨h, List.isChain_singleton x, fun y hy z hz => ?_⟩
  obtain rfl : x = z := by simpa using hz
  exact hx y hy

/-- What the tick rests on. -/
structure TickKnown (marks : List Mark) (authTimes : List ℤ) (k : Tick) : Prop where
  marked : Marked k.marks k.seen k.before
  lastOf : LastOf k.seen k.authRecv
  marks : k.marks <+: marks
  seen : k.seen <+: authTimes

theorem TickKnown.mono {marks marks' : List Mark} {l l' : List ℤ} {k : Tick}
    (h : TickKnown marks l k) (hmarks : marks <+: marks') (hl : l <+: l') : TickKnown marks' l' k :=
  ⟨h.marked, h.lastOf, h.marks.trans hmarks, h.seen.trans hl⟩

/-- The same in the middle of a tick. -/
def MonitorKnown (marks : List Mark) (authTimes : List ℤ) : Monitor → Prop
  | .loadActive _ before ms | .loadAuth _ before ms _ => Marked ms authTimes before ∧ ms <+: marks
  | .loadPending k | .swapPending k _ | .decide k => TickKnown marks authTimes k
  | _ => True

/-- The sender between its send and the note of it. -/
def SenderKnown (clock pending : ℤ) (sendTimes : List ℤ) : Sender → Prop
  | .loadPending => SentBy sendTimes clock
  | .readClock => SentBy sendTimes clock ∧ pending = 0
  | .swapPending nano => SentBy sendTimes nano ∧ pending = 0 ∧ 0 < nano ∧ nano ≤ clock
  | _ => True

/-- The sender is between a send and the end of its note. -/
def Sender.Noting : Sender → Prop
  | .loadPending | .readClock | .swapPending _ => True
  | _ => False

structure Health.Inv (h : Health) : Prop where
  clock : 0 < h.clock
  marked : Marked h.marks h.authTimes h.udpPendingNano
  noted : ∀ n, .noted n ∈ h.marks → 0 < n ∧ SentBy h.sendTimes n
  follows : h.marks.IsChain (Mark.Follows h.authTimes)
  covered : h.sendTimes ≠ [] → h.sender.Noting ∨ ∃ n, .noted n ∈ h.marks
  tick : TickOk h.clock h.udpPendingNano h.monitor
  sender : SenderKnown h.clock h.udpPendingNano h.sendTimes h.sender
  auth : LastOf h.authTimes h.lastAuthRecvNano
  auth_le : h.lastAuthRecvNano ≤ h.clock
  receiver : ∀ nano ∈ h.receiver, h.lastAuthRecvNano ≤ nano ∧ nano ≤ h.clock
  monitor : MonitorKnown h.marks h.authTimes h.monitor
  verdicts : ∀ v ∈ h.verdicts, v.Right ∧ TickKnown h.marks h.authTimes v.toTick
  stalled : h.stalled = true → ∃ v ∈ h.verdicts, v.action = .reconnect

theorem MonitorKnown.mono {marks marks' : List Mark} {l l' : List ℤ} {m : Monitor}
    (h : MonitorKnown marks l m) (hmarks : marks <+: marks') (hl : l <+: l') :
    MonitorKnown marks' l' m := by
  cases m with
  | loadActive now before ms => exact ⟨h.1.mono hl, h.2.trans hmarks⟩
  | loadAuth now before ms active => exact ⟨h.1.mono hl, h.2.trans hmarks⟩
  | loadPending k => exact TickKnown.mono h hmarks hl
  | swapPending k p => exact TickKnown.mono h hmarks hl
  | decide k => exact TickKnown.mono h hmarks hl
  | _ => trivial

theorem SenderKnown.time {clock clock' pending : ℤ} {l : List ℤ} {s : Sender}
    (h : SenderKnown clock pending l s) (hle : clock ≤ clock') : SenderKnown clock' pending l s := by
  have hsent : SentBy l clock → SentBy l clock' := fun ⟨t, ht, hc⟩ => ⟨t, ht, hc.trans hle⟩
  cases s with
  | loadPending => exact hsent h
  | readClock => exact ⟨hsent h.1, h.2⟩
  | swapPending nano => exact ⟨h.1, h.2.1, h.2.2.1, h.2.2.2.trans hle⟩
  | _ => trivial

/-- A sender about to note a send finds no other. -/
theorem SenderKnown.cleared {clock pending : ℤ} {l : List ℤ} {s : Sender}
    (h : SenderKnown clock pending l s) : SenderKnown clock 0 l s := by
  cases s with
  | loadPending => exact h
  | readClock => exact ⟨h.1, rfl⟩
  | swapPending nano => exact ⟨h.1, rfl, h.2.2⟩
  | _ => trivial

namespace Health

theorem Inv.time {h : Health} (hi : h.Inv) (d : ℕ) : Inv { h with clock := h.clock + d } := by
  have hle : h.clock ≤ h.clock + d := by omega
  exact { hi with
    clock := hi.clock.trans_le hle
    tick := hi.tick.time hle
    sender := hi.sender.time hle
    auth_le := hi.auth_le.trans hle
    receiver := fun nano hn => ⟨(hi.receiver nano hn).1, (hi.receiver nano hn).2.trans hle⟩ }

theorem Inv.receiverStep {h : Health} (hi : h.Inv) : h.receiverStep.Inv := by
  unfold Health.receiverStep
  cases hr : h.receiver with
  | none =>
    refine { hi with receiver := ?_ }
    intro nano hn
    obtain rfl := Option.some.inj hn
    exact ⟨hi.auth_le, le_rfl⟩
  | some nano =>
    obtain ⟨hle, hclock⟩ := hi.receiver nano (by simp [hr])
    have hmore : h.authTimes <+: h.authTimes ++ [nano] := List.prefix_append _ _
    refine { hi with
      marked := hi.marked.mono hmore
      follows := hi.follows.imp fun _ _ => Mark.Follows.mono hmore
      auth := ⟨?_, .inr (by simp)⟩
      auth_le := hclock
      receiver := by simp
      monitor := hi.monitor.mono List.prefix_rfl hmore
      verdicts := fun v hv => ⟨(hi.verdicts v hv).1, (hi.verdicts v hv).2.mono List.prefix_rfl hmore⟩ }
    intro a ha
    rcases List.mem_append.mp ha with ha | ha
    · exact (hi.auth.le a ha).trans hle
    · exact (List.mem_singleton.mp ha).le

/-- The pending send is forgotten, and the monitor goes on to the end of its tick. -/
theorem Inv.forget {h : Health} (hi : h.Inv) {m : Monitor} (htick : TickOk h.clock 0 m)
    (hmonitor : ∀ marks, MonitorKnown marks h.authTimes m) :
    Inv { h with udpPendingNano := 0, marks := h.marks ++ [.forgotten], monitor := m } := by
  have hmore : h.marks <+: h.marks ++ [.forgotten] := List.prefix_append _ _
  exact { hi with
    marked := marked_forgotten h.marks h.authTimes
    noted := fun n hn => hi.noted n (by simpa using hn)
    follows := follows_concat hi.follows fun y _ => by cases y <;> trivial
    covered := fun hne => (hi.covered hne).imp id fun ⟨n, hn⟩ => ⟨n, List.mem_append_left _ hn⟩
    tick := htick
    sender := hi.sender.cleared
    monitor := hmonitor _
    verdicts := fun v hv =>
      ⟨(hi.verdicts v hv).1, (hi.verdicts v hv).2.mono hmore List.prefix_rfl⟩ }

/-- The sender notes a send. -/
theorem Inv.note {h : Health} (hi : h.Inv) {nano : ℤ} (hs : h.sender = .swapPending nano)
    (hprompt : h.clock < nano + udpDeadAfter) :
    Inv { h with udpPendingNano := nano, marks := h.marks ++ [.noted nano], sender := .loadActive } := by
  have hknown := hi.sender
  rw [hs] at hknown
  obtain ⟨hsent, hzero, hpos, -⟩ := hknown
  have htick := hi.tick
  have hmarked := hi.marked
  rw [hzero] at htick hmarked
  have hmore : h.marks <+: h.marks ++ [.noted nano] := List.prefix_append _ _
  refine { hi with
    marked := marked_noted h.marks h.authTimes hpos
    noted := fun n hn => ?_
    follows := follows_concat hi.follows fun y hy => ?_
    covered := fun _ => .inr ⟨nano, by simp⟩
    tick := htick.noted hprompt
    sender := trivial
    monitor := hi.monitor.mono hmore List.prefix_rfl
    verdicts := fun v hv =>
      ⟨(hi.verdicts v hv).1, (hi.verdicts v hv).2.mono hmore List.prefix_rfl⟩ }
  · rcases List.mem_append.mp hn with hn | hn
    · exact hi.noted n hn
    · obtain rfl : n = nano := by simpa using hn
      exact ⟨hpos, hsent⟩
  · -- the last note is not pending any more
    cases y with
    | forgotten => trivial
    | noted n =>
      have hn : 0 < n := (hi.noted n (List.mem_of_getLast? hy)).1
      exact hmarked.answered n hy hn.ne

/-- A step of the sender, which is not held up before it notes a send. -/
theorem Inv.senderStep {h : Health} (hi : h.Inv) (r : SendResult)
    (hprompt : ∀ nano, h.sender = .swapPending nano → h.clock < nano + udpDeadAfter) :
    (h.senderStep r).Inv := by
  have hknown := hi.sender
  have hcovered := hi.covered
  unfold Health.senderStep
  cases hs : h.sender with
  | loadActive =>
    rw [hs] at hcovered
    have hnoted := fun hne => (hcovered hne).resolve_left id
    dsimp only
    split
    · exact { hi with sender := trivial, covered := fun hne => .inr (hnoted hne) }
    · exact { hi with sender := trivial, covered := fun hne => .inr (hnoted hne) }
  | send =>
    rw [hs] at hcovered
    have hnoted := fun hne => (hcovered hne).resolve_left id
    cases r with
    | ok =>
      exact { hi with
        noted := fun n hn => ⟨(hi.noted n hn).1, (hi.noted n hn).2.mono _ le_rfl⟩
        covered := fun _ => .inl trivial
        sender := ⟨h.clock, by simp, le_rfl⟩ }
    | temporary => exact { hi with sender := trivial, covered := fun hne => .inr (hnoted hne) }
    | failed =>
      dsimp only
      split
      · exact { hi with sender := trivial, covered := fun hne => .inr (hnoted hne) }
      · exact { hi with sender := trivial, covered := fun hne => .inr (hnoted hne) }
  | loadPending =>
    rw [hs] at hknown
    dsimp only
    split
    · rename_i hzero
      exact { hi with sender := ⟨hknown, hzero⟩, covered := fun _ => .inl trivial }
    · rename_i hne
      have hlast := List.mem_of_getLast? (hi.marked.noted hne).2
      exact { hi with sender := trivial, covered := fun _ => .inr ⟨_, hlast⟩ }
  | readClock =>
    rw [hs] at hknown
    exact { hi with
      sender := ⟨hknown.1, hknown.2, hi.clock, le_rfl⟩
      covered := fun _ => .inl trivial }
  | swapPending nano =>
    rw [hs] at hknown
    dsimp only
    rw [if_pos hknown.2.1, if_pos hknown.2.1]
    exact hi.note hs (hprompt nano hs)
  | failActive | failProto | relay =>
    rw [hs] at hcovered
    exact { hi with
      sender := trivial
      covered := fun hne => .inr ((hcovered hne).resolve_left id) }

theorem Inv.act {h : Health} (hi : h.Inv) {v : Verdict} (hv : v ∈ h.verdicts) : (h.act v).Inv := by
  unfold Health.act
  cases hact : v.action with
  | probe => exact { hi with tick := trivial, monitor := trivial }
  | failover => exact { hi with tick := trivial, monitor := trivial }
  | reconnect =>
    exact { hi with tick := trivial, monitor := trivial, stalled := fun _ => ⟨v, hv, hact⟩ }
  | none =>
    dsimp only
    split
    · split
      · exact { hi with tick := trivial, monitor := trivial }
      · exact { hi with tick := trivial, monitor := trivial }
    · exact { hi with tick := trivial, monitor := trivial }

theorem Inv.decideStep {h : Health} (hi : h.Inv) (udpStartNano : ℤ) {k : Tick}
    (hm : h.monitor = .decide k) :
    (Health.act { h with verdicts := h.verdicts ++ [h.verdict udpStartNano k] }
      (h.verdict udpStartNano k)).Inv := by
  have htick := hi.tick
  have hknown := hi.monitor
  rw [hm] at htick hknown
  have hadded : Inv { h with verdicts := h.verdicts ++ [h.verdict udpStartNano k] } := by
    refine { hi with verdicts := fun v hv => ?_, stalled := fun hst => ?_ }
    · rcases List.mem_append.mp hv with hv | hv
      · exact hi.verdicts v hv
      · obtain rfl := List.mem_singleton.mp hv
        exact ⟨decide_right htick.2 _, hknown⟩
    · obtain ⟨v, hv, hact⟩ := hi.stalled hst
      exact ⟨v, List.mem_append_left _ hv, hact⟩
  exact hadded.act (List.mem_append_right _ (List.mem_singleton_self _))

theorem Inv.monitorStep {h h' : Health} (hi : h.Inv) {udpStartNano : ℤ}
    (hstep : h.monitorStep udpStartNano = some h') : h'.Inv := by
  have htick := hi.tick
  have hknown := hi.monitor
  unfold Health.monitorStep at hstep
  cases hm : h.monitor with
  | wait =>
    rw [hm] at hstep
    obtain rfl := Option.some.inj hstep
    exact { hi with
      tick := ⟨le_rfl, fun _ => rfl, fun h0 => .inl h0⟩
      monitor := ⟨hi.marked, List.prefix_rfl⟩ }
  | loadActive now before marks =>
    rw [hm] at hstep htick hknown
    obtain rfl := Option.some.inj hstep
    exact { hi with tick := htick, monitor := hknown }
  | loadAuth now before marks active =>
    rw [hm] at hstep htick hknown
    obtain rfl := Option.some.inj hstep
    exact { hi with
      tick := htick
      monitor := ⟨hknown.1, hi.auth, hknown.2, List.prefix_rfl⟩ }
  | loadPending k =>
    rw [hm] at hstep htick hknown
    obtain ⟨hnow, hearly⟩ := htick
    dsimp only at hstep
    split at hstep
    · rename_i hans
      obtain rfl := Option.some.inj hstep
      exact { hi with
        tick := ⟨hnow, rfl, hans.1, hans.2, fun hne => (hearly.1 hne).symm⟩
        monitor := hknown }
    · rename_i hans
      obtain rfl := Option.some.inj hstep
      refine { hi with tick := ⟨hnow, ?_⟩, monitor := hknown }
      by_cases hne : k.before = 0
      · exact .inr ⟨fun h0 => absurd hne h0, hearly.2 hne⟩
      · -- the send with which the tick began is still pending and not answered
        have heq := hearly.1 hne
        refine .inl ⟨hne, heq, ?_⟩
        by_contra hle
        exact hans ⟨heq ▸ hne, heq ▸ not_lt.mp hle⟩
  | swapPending k p =>
    rw [hm] at hstep htick hknown
    obtain ⟨hnow, heq, hne, hle, hbefore⟩ := htick
    dsimp only at hstep
    rw [if_pos heq] at hstep
    obtain rfl := Option.some.inj hstep
    -- what answers the pending send has been noted by then
    have hpos : 0 < p := heq ▸ (hi.marked.noted (heq ▸ hne)).1
    have hseen : k.authRecv ∈ h.authTimes :=
      hknown.seen.subset (hknown.lastOf.mem.resolve_left (by omega))
    exact { hi with
      marked := hi.marked.cleared hseen (heq ▸ hle)
      tick := ⟨hnow, .inr ⟨fun h0 => hbefore h0 ▸ hle, .inl rfl⟩⟩
      sender := hi.sender.cleared
      monitor := hknown }
  | decide k =>
    rw [hm] at hstep
    obtain rfl := Option.some.inj hstep
    exact hi.decideStep udpStartNano hm
  | failPending | restorePending =>
    rw [hm] at hstep
    obtain rfl := Option.some.inj hstep
    exact hi.forget trivial fun _ => trivial
  | failActive | failProto | restoreActive | restoreProto =>
    rw [hm] at hstep
    obtain rfl := Option.some.inj hstep
    exact { hi with tick := trivial, monitor := trivial }
  | exited =>
    rw [hm] at hstep
    cases hstep

theorem Inv.step {h h' : Health} (hi : h.Inv) {udpStartNano : ℤ} {ev : HealthEvent}
    (hprompt : ∀ r nano, ev = .sender r → h.sender = .swapPending nano → h.clock < nano + udpDeadAfter)
    (hstep : h.step udpStartNano ev = some h') : h'.Inv := by
  cases ev with
  | time d =>
    obtain rfl := Option.some.inj hstep
    exact hi.time d
  | monitor => exact hi.monitorStep hstep
  | sender r =>
    obtain rfl := Option.some.inj hstep
    exact hi.senderStep r fun nano => hprompt r nano rfl
  | receiver =>
    obtain rfl := Option.some.inj hstep
    exact hi.receiverStep

theorem inv_init {now : ℤ} (hnow : 0 < now) : (init now).Inv where
  clock := hnow
  marked := ⟨fun h0 => absurd rfl h0, fun n hlast => by simp [init] at hlast⟩
  noted := by simp [init]
  follows := List.isChain_nil
  covered := fun hne => absurd rfl hne
  tick := trivial
  sender := trivial
  auth := ⟨by simp [init], .inl rfl⟩
  auth_le := hnow.le
  receiver := by simp [init]
  monitor := trivial
  verdicts := by simp [init]
  stalled := by simp [init]

end Health

/-- The last time noted is before a given one exactly if all of them are. -/
theorem LastOf.lt_iff {l : List ℤ} {nano t : ℤ} (h : LastOf l nano) (ht : 0 < t) :
    nano < t ↔ ∀ a ∈ l, a < t := by
  constructor
  · exact fun hlt a ha => (h.le a ha).trans_lt hlt
  · intro hall
    rcases h.mem with rfl | hmem
    · exact ht
    · exact hall nano hmem

/-- The verdict for the send that was noted last. -/
theorem Verdict.Right.noted {marks : List Mark} {l : List ℤ} {v : Verdict} (h : v.Right)
    (hk : TickKnown marks l v.toTick) (hmarks : ∀ n, .noted n ∈ marks → 0 < n) :
    v.action.Dead ↔ v.active = true ∧ ∃ n, v.marks.getLast? = some (.noted n) ∧
      n + udpDeadAfter ≤ v.now ∧ ∀ a ∈ v.seen, a < n := by
  rw [h.dead_iff]
  refine and_congr_right fun _ => ?_
  constructor
  · rintro ⟨hne, hlate, hlt⟩
    obtain ⟨hpos, hlast⟩ := hk.marked.noted hne
    exact ⟨v.before, hlast, hlate, (hk.lastOf.lt_iff hpos).mp hlt⟩
  · rintro ⟨n, hlast, hlate, hall⟩
    -- an answer would have been seen
    have heq : v.before = n := by
      by_contra hne
      obtain ⟨a, ha, hle⟩ := hk.marked.answered n hlast hne
      exact absurd (hall a ha) (not_lt.mpr hle)
    have hpos : 0 < n := hmarks n (hk.marks.subset (List.mem_of_getLast? hlast))
    subst heq
    exact ⟨hpos.ne', hlate, (hk.lastOf.lt_iff hpos).mpr hall⟩

/-- **When the path is declared dead.** In every interleaving of the goroutines in which the sender
is not held up for eight seconds between reading the clock and noting the send, a tick ends in a
failover or in a reconnect exactly if UDP was active, a noted send was the last mark when the tick
began, it was noted at least eight seconds before, and no datagram authenticated at that time or
later had been noted when the monitor looked. A noted send has in fact returned by then; another
send is noted only after an answer, or when UDP has been given up or taken up since; and when the
sender is through with its first send, a send is noted. -/
theorem dead_iff (udpStartNano now : ℤ) (hnow : 0 < now) (evs : List HealthEvent) (h : Health)
    (hrun : run (Health.step udpStartNano) (Health.init now) evs = some h)
    (hprompt : Along (Health.step udpStartNano) (fun m ev => ∀ r nano, ev = .sender r →
      m.sender = .swapPending nano → m.clock < nano + udpDeadAfter) (Health.init now) evs) :
    (∀ v ∈ h.verdicts,
      (v.action.Dead ↔ v.active = true ∧ ∃ n, v.marks.getLast? = some (.noted n) ∧
        n + udpDeadAfter ≤ v.now ∧ ∀ a ∈ v.seen, a < n) ∧
      v.marks <+: h.marks ∧ v.seen <+: h.authTimes) ∧
    (∀ n, .noted n ∈ h.marks → ∃ t ∈ h.sendTimes, t ≤ n) ∧
    h.marks.IsChain (Mark.Follows h.authTimes) ∧
    (h.sendTimes ≠ [] → h.sender.Noting ∨ ∃ n, .noted n ∈ h.marks) ∧
    (h.stalled = true → ∃ v ∈ h.verdicts, v.action = .reconnect) := by
  have hi : h.Inv :=
    run_inv (fun _ _ _ hI hC hstep => hI.step hC hstep) (Health.inv_init hnow) hprompt hrun
  refine ⟨fun v hv => ?_, fun n hn => (hi.noted n hn).2, hi.follows, hi.covered, hi.stalled⟩
  obtain ⟨hright, hknown⟩ := hi.verdicts v hv
  exact ⟨hright.noted hknown fun n hn => (hi.noted n hn).1, hknown.marks, hknown.seen⟩

section Samples

/-- A data send at the tenth second that nobody answers, and the tick at the eighteenth. -/
def sampleSilence : List HealthEvent :=
  [.sender .ok, .sender .ok, .sender .ok, .sender .ok, .sender .ok, .time (8 * second),
    .monitor, .monitor, .monitor, .monitor, .monitor]

/-- A send that is noted eight seconds after the clock was read, in the middle of a tick; the answer
has come long before. -/
def sampleDelay : List HealthEvent :=
  [.sender .ok, .sender .ok, .sender .ok, .sender .ok, .time second, .receiver, .receiver,
    .time (8 * second), .monitor, .monitor, .monitor, .monitor, .sender .ok, .monitor]

/-- The sender is not held up. -/
def promptly (h : Health) : HealthEvent → Bool
  | .sender _ =>
    match h.sender with
    | .swapPending nano => h.clock < nano + udpDeadAfter
    | _ => true
  | _ => true

def afterSilence : Health := last (Health.step 0) (Health.init (10 * second)) sampleSilence

theorem dead_iff_silence :
    afterSilence.verdicts.map Verdict.action = [.failover] ∧
    afterSilence.marks = [.noted (10 * second)] ∧
    ∀ v ∈ afterSilence.verdicts, (v.action.Dead ↔ v.active = true ∧
      ∃ n, v.marks.getLast? = some (.noted n) ∧ n + udpDeadAfter ≤ v.now ∧ ∀ a ∈ v.seen, a < n) := by
  have hprompt : Along (Health.step 0) (fun m ev => promptly m ev = true)
      (Health.init (10 * second)) sampleSilence := by
    decide +kernel
  refine ⟨by decide +kernel, by decide +kernel, fun v hv => ?_⟩
  refine ((dead_iff 0 (10 * second) (by decide) sampleSilence afterSilence
    (run_eq_last (by decide +kernel)) (hprompt.mono ?_)).1 v hv).1
  rintro m - hp r nano rfl hs
  simpa [promptly, hs] using hp

/-- Without the condition on the sender the path is declared dead although it has been answered. -/
example : ((last (Health.step 0) (Health.init (10 * second)) sampleDelay).verdicts.map fun v =>
    (v.action, v.pending, v.seen)) =
      [(UDPHealthAction.reconnect, (10 * second : ℤ), [(11 * second : ℤ)])] := by
  decide +kernel

end Samples

end ObsidianVPN.Client
