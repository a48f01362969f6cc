import ObsidianVPN.Udp.Endpoints
import ObsidianVPN.Udp.Lookup

/-!
# Forged datagrams

The multiplexer remembers the session of the last datagram before it has authenticated it. With
distinct tags nobody can tell: datagrams that do not open change nothing that a session shows.

* `UDPServer.receiveAll`: the rounds of `runOnConn` over a trace of datagrams;
* `withoutForged`: the trace without the datagrams that do not open;
* `OpenSessions`: a history of registrations and ratchets with distinct tags, and `Steady`: a
  multiplexer whose fast path is invisible;
* `Alike`: servers that differ in the most recently used session only; **`receive_alike`**,
  **`receive_forged`**;
* **`forged_invisible`**: queue, replay window, client address and socket of every session are the
  same without the forged datagrams, and no authentic datagram is offered twice.
-/

namespace ObsidianVPN.Udp

open ByteStr Runs ReplayWindow

/-! ## Traces -/

section Traces

variable (U : UDPCiphers)

/-- `runOnConn` on one datagram after the other, with what became of them. -/
def UDPServer.receiveAll (srv : UDPServer) : List Arrival → Option (List Outcome × UDPServer)
  | [] => some ([], srv)
  | a :: trace => do
    let (o, srv) ← srv.receive U a
    let (os, srv) ← srv.receiveAll trace
    return (o :: os, srv)

/-- `Open` fails under the key that `runOnConn` picks. -/
def UDPMux.openFails (m : UDPMux) (datagram : Bytes) : Bool :=
  match m.pick datagram with
  | none => false
  | some (packet, _, _, dec, hp) => (openPacket U dec hp packet).isNone

/-- The trace without the datagrams for which `Open` fails when they arrive. -/
def withoutForged (srv : UDPServer) : List Arrival → List Arrival
  | [] => []
  | a :: trace =>
    let rest :=
      match srv.receive U a with
      | some (_, srv) => withoutForged srv trace
      | none => trace
    if srv.mux.openFails U a.datagram then rest else a :: rest

/-- The session and the counter of a datagram that opens. -/
def UDPMux.identity (m : UDPMux) (datagram : Bytes) : Option (ℕ × ℕ) :=
  (m.openDatagram U datagram).map fun (i, _, ctr, _) => (i, ctr)

end Traces

def Outcome.isOffered : Outcome → Bool
  | .offered .. => true
  | _ => false

/-- The payload that an outcome offers to the session `i`. -/
def Outcome.offeredTo (i : ℕ) : Outcome → Option Bytes
  | .offered j payload => if j = i then some payload else none
  | _ => none

/-- What a session shows: the payloads offered to its queue, its replay window, its client's
address and its socket. -/
def sessionView (r : List Outcome × UDPServer) (i : ℕ) :
    List Bytes × Replay × Option UDPAddr × Option ℕ :=
  (r.1.filterMap (Outcome.offeredTo i), (r.2.states i).replay, (r.2.states i).clientAddr,
    (r.2.states i).activeConn)

variable {U : UDPCiphers}

/-! ## One round -/

/-- **What a round can do.** -/
theorem receive_cases {srv srv' : UDPServer} {a : Arrival} {o : Outcome}
    (h : srv.receive U a = some (o, srv')) :
    srv'.mux = srv.mux.lookedUp a.datagram ∧
    ((srv.mux.openDatagram U a.datagram = none ∧ o = .ignored ∧ srv'.states = srv.states) ∨
      ∃ i s ctr plain, srv.mux.openDatagram U a.datagram = some (i, s, ctr, plain) ∧
        ((o = .replayed i ∧ srv'.states = srv.states) ∨
          ∃ w, (srv.states i).replay.check ctr = some (true, w) ∧ (srv'.states i).replay = w ∧
            ∀ j, j ≠ i → srv'.states j = srv.states j)) := by
  unfold UDPServer.receive at h
  cases hopen : srv.mux.openDatagram U a.datagram with
  | none =>
    simp only [hopen, Option.some.injEq, Prod.mk.injEq] at h
    obtain ⟨rfl, rfl⟩ := h
    exact ⟨rfl, .inl ⟨rfl, rfl, rfl⟩⟩
  | some r =>
    obtain ⟨i, s, ctr, plain⟩ := r
    simp only [hopen] at h
    obtain ⟨⟨fresh, w⟩, hcheck, hres⟩ := Option.map_eq_some_iff.mp h
    cases fresh with
    | false =>
      obtain rfl := check_false hcheck
      simp only [Bool.false_eq_true, not_false_eq_true, if_true, Prod.mk.injEq] at hres
      obtain ⟨rfl, rfl⟩ := hres
      refine ⟨rfl, .inr ⟨i, s, ctr, plain, rfl, .inl ⟨rfl, ?_⟩⟩⟩
      exact Function.update_eq_self i srv.states
    | true =>
      simp only [not_true_eq_false, if_false] at hres
      split at hres
      · simp only [Prod.mk.injEq] at hres
        obtain ⟨-, rfl⟩ := hres
        refine ⟨rfl, .inr ⟨i, s, ctr, plain, rfl, .inr ⟨w, hcheck, ?_, fun j hj => ?_⟩⟩⟩
        · simp only [Function.update_self, SessionState.send]
          split <;> rfl
        · exact Function.update_of_ne hj _ _
      · simp only [Prod.mk.injEq] at hres
        obtain ⟨-, rfl⟩ := hres
        refine ⟨rfl, .inr ⟨i, s, ctr, plain, rfl, .inr ⟨w, hcheck, ?_, fun j hj => ?_⟩⟩⟩
        · simp only [Function.update_self]
        · exact Function.update_of_ne hj _ _

/-! ## The fast path is invisible -/

/-- A history of registrations and ratchets of existing sessions, with distinct tags. -/
structure OpenSessions (ops : List Op) : Prop where
  names : EachStep (fun pre op => op.Names (run pre)) ops
  distinct : (usedTags ops).Nodup
  neverClosed : ∀ i, Op.close i ∉ ops

/-- A multiplexer in which the table leads from the tags of the open sessions to their owners. -/
def Steady (m : UDPMux) : Prop := ∃ ops, run ops = m ∧ Routed ops

theorem OpenSessions.steady {ops : List Op} (h : OpenSessions ops) : Steady (run ops) := by
  refine ⟨ops, rfl, ?_⟩
  obtain ⟨hnames, hdistinct, hclosed⟩ := h
  -- all sessions are open, so that every ratchet is tidy
  have hboth : Routed ops ∧
      ∀ (i : ℕ) (s : UDPSession), (run ops).sessions[i]? = some s → s.closed = false := by
    induction ops using List.reverseRecOn with
    | nil => exact ⟨routed_nil, fun i s hs => by simp [newUDPMux] at hs⟩
    | append_singleton ops op ih =>
      rw [eachStep_concat] at hnames
      have hsub : (usedTags ops).Nodup :=
        hdistinct.sublist ((List.prefix_append ops [op]).sublist.filterMap _)
      obtain ⟨hrouted, hopen⟩ := ih hnames.1 hsub fun i hi => hclosed i (List.mem_append_left _ hi)
      have hnew : ∀ t, op.newTag = some t → t ∉ usedTags ops := fun t ht =>
        newTag_not_mem List.prefix_rfl hdistinct ht
      have hsession : ∀ {i}, i < (run ops).sessions.length → ∃ s, (run ops).Open i s := fun {i} hi =>
        ⟨_, List.getElem?_eq_getElem hi, hopen i _ (List.getElem?_eq_getElem hi)⟩
      have htidy : Tidy ops op := by
        cases op with
        | register keys => trivial
        | ratchet i keys => exact hsession hnames.2
        | close i => exact absurd (List.mem_append_right _ List.mem_cons_self) (hclosed i)
        | datagram tag => trivial
      refine ⟨hrouted.step hnew htidy, fun i s hs => ?_⟩
      rw [run_append_singleton] at hs
      cases op with
      | register keys =>
        by_cases hi : i < (run ops).sessions.length
        · rw [UDPMux.step, UDPMux.registerSession, List.getElem?_append_left hi] at hs
          exact hopen i s hs
        · rw [UDPMux.step, UDPMux.registerSession, List.getElem?_append_right (by omega)] at hs
          obtain rfl := List.mem_singleton.mp (List.mem_of_getElem? hs)
          rfl
      | ratchet j keys =>
        obtain ⟨s₀, hs₀⟩ := hsession hnames.2
        rw [UDPMux.step, sessions_ratchetEpoch _ hs₀.1] at hs
        split at hs
        · obtain rfl := Option.some.inj hs
          exact hs₀.2
        · exact hopen i s hs
      | close j => exact absurd (List.mem_append_right _ List.mem_cons_self) (hclosed j)
      | datagram tag =>
        rw [UDPMux.step, arrive_sessions] at hs
        exact hopen i s hs
  exact hboth.1

theorem Steady.lookedUp {m : UDPMux} (h : Steady m) (datagram : Bytes) :
    Steady (m.lookedUp datagram) := by
  obtain ⟨ops, rfl, hrouted⟩ := h
  unfold UDPMux.lookedUp
  split
  · exact ⟨ops, rfl, hrouted⟩
  · rename_i packet _
    exact ⟨ops ++ [.datagram (Tag.read packet)], run_append_singleton .., hrouted.datagram _⟩

theorem lookedUp_sessions (m : UDPMux) (datagram : Bytes) :
    (m.lookedUp datagram).sessions = m.sessions := by
  unfold UDPMux.lookedUp
  split
  · rfl
  · exact arrive_sessions m _

theorem lookedUp_table (m : UDPMux) (datagram : Bytes) : (m.lookedUp datagram).table = m.table := by
  unfold UDPMux.lookedUp
  split
  · rfl
  · exact arrive_table m _

/-- Multiplexers with the same sessions and the same table. -/
def SameTable (m m' : UDPMux) : Prop := m.sessions = m'.sessions ∧ m.table = m'.table

theorem SameTable.lookedUp (m : UDPMux) (datagram : Bytes) : SameTable (m.lookedUp datagram) m :=
  ⟨lookedUp_sessions m datagram, lookedUp_table m datagram⟩

/-- **Steady multiplexers with the same table pick the same session and the same keys.** -/
theorem SameTable.pick {m m' : UDPMux} (h : SameTable m m') (hm : Steady m) (hm' : Steady m')
    (datagram : Bytes) : m.pick datagram = m'.pick datagram := by
  obtain ⟨ops, rfl, hr⟩ := hm
  obtain ⟨ops', rfl, hr'⟩ := hm'
  have htable : ∀ tag, (run ops).tableSelect tag = (run ops').tableSelect tag := fun tag => by
    rw [UDPMux.tableSelect, UDPMux.tableSelect, h.1, h.2]
  have hselect : ∀ tag, (run ops).select tag = (run ops').select tag := fun tag => by
    rw [(hr.selectCorrect tag).1, (hr'.selectCorrect tag).1, htable tag]
  simp only [UDPMux.pick, hselect, h.1]

theorem SameTable.openDatagram {m m' : UDPMux} (h : SameTable m m') (hm : Steady m)
    (hm' : Steady m') (datagram : Bytes) : m.openDatagram U datagram = m'.openDatagram U datagram := by
  rw [UDPMux.openDatagram, UDPMux.openDatagram, h.pick hm hm']

/-- Servers that differ in the most recently used session only. -/
structure Alike (srv srv' : UDPServer) : Prop where
  steady : Steady srv.mux
  steady' : Steady srv'.mux
  table : SameTable srv.mux srv'.mux
  conn : srv.conn = srv'.conn
  states : srv.states = srv'.states

/-- Two results of a step are none or alike. -/
def ResultsAlike {α : Type*} : Option (α × UDPServer) → Option (α × UDPServer) → Prop
  | none, none => True
  | some (o, srv), some (o', srv') => o = o' ∧ Alike srv srv'
  | _, _ => False

/-- **A round does the same on servers that are alike.** -/
theorem receive_alike {srv srv' : UDPServer} (h : Alike srv srv') (a : Arrival) :
    ResultsAlike (srv.receive U a) (srv'.receive U a) := by
  have hmux := h.steady.lookedUp a.datagram
  have hmux' := h.steady'.lookedUp a.datagram
  have htable : SameTable (srv.mux.lookedUp a.datagram) (srv'.mux.lookedUp a.datagram) :=
    ⟨by rw [lookedUp_sessions, lookedUp_sessions, h.table.1],
      by rw [lookedUp_table, lookedUp_table, h.table.2]⟩
  unfold UDPServer.receive
  rw [h.table.openDatagram h.steady h.steady', h.states, h.conn]
  cases srv'.mux.openDatagram U a.datagram with
  | none => exact ⟨rfl, hmux, hmux', htable, rfl, rfl⟩
  | some r =>
    obtain ⟨i, s, ctr, plain⟩ := r
    simp only
    cases (srv'.states i).replay.check ctr with
    | none => trivial
    | some r =>
      obtain ⟨fresh, w⟩ := r
      simp only [Option.map_some]
      split
      · exact ⟨rfl, hmux, hmux', htable, rfl, rfl⟩
      · split
        · exact ⟨rfl, hmux, hmux', htable, rfl, rfl⟩
        · exact ⟨rfl, hmux, hmux', htable, rfl, rfl⟩

/-- **A datagram that does not open leaves a server alike.** -/
theorem receive_forged {srv : UDPServer} (hsteady : Steady srv.mux) {a : Arrival}
    (h : srv.mux.openFails U a.datagram = true) :
    ∃ srv', srv.receive U a = some (.ignored, srv') ∧ Alike srv' srv := by
  have hopen : srv.mux.openDatagram U a.datagram = none := by
    unfold UDPMux.openFails at h
    unfold UDPMux.openDatagram
    cases hpick : srv.mux.pick a.datagram with
    | none => rfl
    | some r =>
      obtain ⟨packet, i, s, dec, hp⟩ := r
      rw [hpick] at h
      simp [Option.isNone_iff_eq_none.mp h]
  refine ⟨{ srv with mux := srv.mux.lookedUp a.datagram }, ?_, hsteady.lookedUp _, hsteady,
    SameTable.lookedUp _ _, rfl, rfl⟩
  simp only [UDPServer.receive, hopen]

/-! ## Traces -/

theorem receiveAll_cons (srv : UDPServer) (a : Arrival) (trace : List Arrival) :
    srv.receiveAll U (a :: trace) =
      (srv.receive U a).bind fun (o, srv) =>
        (srv.receiveAll U trace).map fun (os, srv) => (o :: os, srv) := by
  rw [UDPServer.receiveAll]
  cases srv.receive U a with
  | none => rfl
  | some r =>
    simp only [Option.bind_eq_bind, Option.bind_some]
    cases r.2.receiveAll U trace <;> rfl

theorem Alike.refl {srv : UDPServer} (h : Steady srv.mux) : Alike srv srv :=
  ⟨h, h, ⟨rfl, rfl⟩, rfl, rfl⟩

theorem Alike.trans {srv srv' srv'' : UDPServer} (h : Alike srv srv') (h' : Alike srv' srv'') :
    Alike srv srv'' :=
  ⟨h.steady, h'.steady', ⟨h.table.1.trans h'.table.1, h.table.2.trans h'.table.2⟩,
    h.conn.trans h'.conn, h.states.trans h'.states⟩

/-- The first outcome of a trace, seen by the sessions. -/
def consView (o : Outcome) (v : ℕ → List Bytes × Replay × Option UDPAddr × Option ℕ) (i : ℕ) :
    List Bytes × Replay × Option UDPAddr × Option ℕ :=
  ((o.offeredTo i).toList ++ (v i).1, (v i).2)

theorem sessionView_cons (o : Outcome) (os : List Outcome) (srv : UDPServer) :
    sessionView (o :: os, srv) = consView o (sessionView (os, srv)) := by
  funext i
  simp only [sessionView, consView, List.filterMap_cons]
  cases o.offeredTo i <;> rfl

theorem sessionView_receiveAll {srv srv' : UDPServer} {a : Arrival} {o : Outcome}
    (h : srv.receive U a = some (o, srv')) (trace : List Arrival) :
    (srv.receiveAll U (a :: trace)).map sessionView =
      ((srv'.receiveAll U trace).map sessionView).map (consView o) := by
  rw [receiveAll_cons, h, Option.bind_some, Option.map_map, Option.map_map]
  congr 1
  funext r
  exact sessionView_cons o r.1 r.2

/-- **What the sessions show does not depend on the datagrams that do not open**, nor on the most
recently used session. -/
theorem sessionView_withoutForged {srv srv' : UDPServer} (h : Alike srv srv') (trace : List Arrival) :
    (srv.receiveAll U trace).map sessionView =
      (srv'.receiveAll U (withoutForged U srv trace)).map sessionView := by
  induction trace generalizing srv srv' with
  | nil =>
    simp only [withoutForged, UDPServer.receiveAll, Option.map_some, Option.some.injEq]
    funext i
    simp only [sessionView, h.states]
  | cons a trace ih =>
    rw [withoutForged]
    by_cases hfail : srv.mux.openFails U a.datagram = true
    · obtain ⟨srv₁, hrecv, halike⟩ := receive_forged h.steady hfail
      rw [sessionView_receiveAll hrecv, ih (halike.trans h)]
      simp only [hfail, hrecv, if_true]
      exact Option.map_id_fun' ▸ rfl
    · simp only [hfail, if_false, Bool.false_eq_true]
      have halike := receive_alike (U := U) h a
      cases hrecv : srv.receive U a with
      | none =>
        cases hrecv' : srv'.receive U a with
        | none => rw [receiveAll_cons, receiveAll_cons, hrecv, hrecv']
        | some r => simp [hrecv, hrecv', ResultsAlike] at halike
      | some r =>
        cases hrecv' : srv'.receive U a with
        | none => simp [hrecv, hrecv', ResultsAlike] at halike
        | some r' =>
          rw [hrecv, hrecv'] at halike
          obtain ⟨ho, hnext⟩ := halike
          rw [sessionView_receiveAll hrecv, sessionView_receiveAll hrecv', ih hnext, ho]

/-! ## Nothing is offered twice -/

theorem SameTable.identity {m m' : UDPMux} (h : SameTable m m') (hm : Steady m) (hm' : Steady m')
    (datagram : Bytes) : m.identity U datagram = m'.identity U datagram := by
  rw [UDPMux.identity, UDPMux.identity, h.openDatagram hm hm']

/-- The datagrams offered in these rounds have different identities, none of them accepted before. -/
structure FreshOffers (U : UDPCiphers) (m : UDPMux) (accepted : ℕ → List ℕ)
    (rounds : List (Arrival × Outcome)) : Prop where
  nodup : ((rounds.filter fun x => x.2.isOffered).map
    fun x => m.identity U x.1.datagram).Nodup
  fresh : ∀ x ∈ rounds, x.2.isOffered = true →
    ∃ i ctr, m.identity U x.1.datagram = some (i, ctr) ∧ ctr ∉ accepted i

section FreshOffers

variable {m : UDPMux} {accepted : ℕ → List ℕ} {a : Arrival} {o : Outcome}
  {rounds : List (Arrival × Outcome)}

/-- A round that offers nothing. -/
theorem FreshOffers.skip (h : FreshOffers U m accepted rounds) (ho : o.isOffered = false) :
    FreshOffers U m accepted ((a, o) :: rounds) := by
  constructor
  · rw [List.filter_cons_of_neg (by simp [ho])]
    exact h.nodup
  · intro x hx hoff
    rcases List.mem_cons.mp hx with rfl | hx
    · simp [ho] at hoff
    · exact h.fresh x hx hoff

/-- A round that accepts a new counter, after which it counts as accepted. -/
theorem FreshOffers.accept {i ctr : ℕ}
    (h : FreshOffers U m (Function.update accepted i (ctr :: accepted i)) rounds)
    (hid : m.identity U a.datagram = some (i, ctr)) (hnew : ctr ∉ accepted i) :
    FreshOffers U m accepted ((a, o) :: rounds) := by
  constructor
  · cases ho : o.isOffered with
    | false =>
      rw [List.filter_cons_of_neg (by simp [ho])]
      exact h.nodup
    | true =>
      rw [List.filter_cons_of_pos (by simp [ho]), List.map_cons, List.nodup_cons]
      refine ⟨fun hmem => ?_, h.nodup⟩
      obtain ⟨x, hx, heq⟩ := List.mem_map.mp hmem
      obtain ⟨hx, hoff⟩ := List.mem_filter.mp hx
      obtain ⟨j, ctr', hid', hnot⟩ := h.fresh x hx hoff
      rw [hid, hid'] at heq
      obtain ⟨rfl, rfl⟩ := Prod.mk.inj (Option.some.inj heq)
      simp at hnot
  · intro x hx hoff
    rcases List.mem_cons.mp hx with rfl | hx
    · exact ⟨i, ctr, hid, hnew⟩
    · obtain ⟨j, ctr', hid', hnot⟩ := h.fresh x hx hoff
      refine ⟨j, ctr', hid', fun hmem => hnot ?_⟩
      by_cases hj : j = i
      · subst hj
        rw [Function.update_self]
        exact List.mem_cons_of_mem _ hmem
      · rwa [Function.update_of_ne hj]

end FreshOffers

/-- The windows remember what they have accepted: what is offered is new, and new every time. -/
theorem freshOffers_receiveAll {m : UDPMux} (hm : Steady m) {srv srv' : UDPServer}
    (hs : Steady srv.mux) (htable : SameTable srv.mux m) {accepted : ℕ → List ℕ}
    (hacc : ∀ i, Remembers (srv.states i).replay (accepted i)) {trace : List Arrival}
    {os : List Outcome} (h : srv.receiveAll U trace = some (os, srv')) :
    FreshOffers U m accepted (trace.zip os) := by
  induction trace generalizing srv os accepted with
  | nil => exact ⟨List.nodup_nil, nofun⟩
  | cons a trace ih =>
    rw [receiveAll_cons] at h
    obtain ⟨⟨o, srv₁⟩, hrecv, hrest⟩ := Option.bind_eq_some_iff.mp h
    obtain ⟨⟨os₁, srv₂⟩, hall, hres⟩ := Option.map_eq_some_iff.mp hrest
    simp only [Prod.mk.injEq] at hres
    obtain ⟨rfl, rfl⟩ := hres
    obtain ⟨hmux, hcases⟩ := receive_cases hrecv
    have hs₁ : Steady srv₁.mux := hmux ▸ hs.lookedUp _
    have htable₁ : SameTable srv₁.mux m := by
      have := SameTable.lookedUp srv.mux a.datagram
      rw [hmux]
      exact ⟨this.1.trans htable.1, this.2.trans htable.2⟩
    rw [List.zip_cons_cons]
    rcases hcases with ⟨-, rfl, hstates⟩ | ⟨i, s, ctr, plain, hopen, ⟨rfl, hstates⟩ | hchecked⟩
    · exact (ih hs₁ htable₁ (fun i => hstates ▸ hacc i) hall).skip rfl
    · exact (ih hs₁ htable₁ (fun i => hstates ▸ hacc i) hall).skip rfl
    · obtain ⟨w, hcheck, hw, hothers⟩ := hchecked
      obtain ⟨hnew, hremembers⟩ := (hacc i).check hcheck
      have hid : m.identity U a.datagram = some (i, ctr) := by
        rw [← htable.identity hs hm, UDPMux.identity, hopen]
        rfl
      have hacc₁ : ∀ j, Remembers (srv₁.states j).replay
          (Function.update accepted i (ctr :: accepted i) j) := by
        intro j
        by_cases hj : j = i
        · subst hj
          rw [Function.update_self, hw]
          exact hremembers
        · rw [Function.update_of_ne hj, hothers j hj]
          exact hacc j
      exact (ih hs₁ htable₁ hacc₁ hall).accept hid hnew

/-- **Forged datagrams do not interfere.** For a fixed set of open sessions with distinct tags, what
every session shows after a trace is the same without the datagrams that do not open, and among the
datagrams that are offered no two have the same session and counter. -/
theorem forged_invisible (srv : UDPServer) {ops : List Op} (hmux : srv.mux = run ops)
    (hops : OpenSessions ops) (trace : List Arrival) :
    (srv.receiveAll U trace).map sessionView =
      (srv.receiveAll U (withoutForged U srv trace)).map sessionView ∧
    ∀ os srv', srv.receiveAll U trace = some (os, srv') →
      (((trace.zip os).filter fun x => x.2.isOffered).map
        fun x => srv.mux.identity U x.1.datagram).Nodup := by
  have hsteady : Steady srv.mux := hmux ▸ hops.steady
  exact ⟨sessionView_withoutForged (.refl hsteady) trace, fun os srv' h =>
    (freshOffers_receiveAll hsteady hsteady ⟨rfl, rfl⟩ (fun i => remembers_nil _) h).nodup⟩

/-- A server with two sessions. -/
def twoSessions : UDPServer :=
  ⟨run [.register (sampleKeys .zero).swap, .register (sampleKeys ⟨1, 2, 3, 4⟩).swap], 0,
    fun _ => newSessionState 0⟩

/-- The first datagram of the client with the given tag. -/
def firstArrival (tag : Tag) (payload : Bytes) : Arrival :=
  ⟨0, ⟨[10, 0, 0, 1], 4000⟩,
    ((newUDPChannel (sampleKeys tag)).send .sample payload 2048 sampleDraws).1.toOption.getD [], 2048,
    sampleDraws⟩

/-- The tag of the first session, and then zeros. -/
def forgedArrival : Arrival := ⟨0, ⟨[10, 0, 0, 9], 53⟩, List.replicate 28 0, 2048, sampleDraws⟩

/-- A datagram of the first client, a forged one, the first one once more, one of the second client. -/
def forgedTrace : List Arrival :=
  [firstArrival .zero [1], forgedArrival, firstArrival .zero [1], firstArrival ⟨1, 2, 3, 4⟩ [2]]

theorem forged_invisible_sample :
    withoutForged .sample twoSessions forgedTrace =
      [firstArrival .zero [1], firstArrival .zero [1], firstArrival ⟨1, 2, 3, 4⟩ [2]] ∧
    (twoSessions.receiveAll .sample forgedTrace).map Prod.fst =
      some [.offered 0 [1], .ignored, .replayed 0, .offered 1 [2]] ∧
    (twoSessions.receiveAll .sample forgedTrace).map sessionView =
      (twoSessions.receiveAll .sample (withoutForged .sample twoSessions forgedTrace)).map
        sessionView := by
  have hops : OpenSessions
      [.register (sampleKeys .zero).swap, .register (sampleKeys ⟨1, 2, 3, 4⟩).swap] := by
    refine ⟨?_, by decide, by simp⟩
    simp only [eachStep_cons, eachStep_nil, and_true]
    exact ⟨trivial, trivial⟩
  exact ⟨by rfl, by rfl, (forged_invisible twoSessions rfl hops forgedTrace).1⟩

end ObsidianVPN.Udp
