import ObsidianVPN.Lib.Machine
import ObsidianVPN.Udp.Forgery

/-!
# Payloads on their way through the multiplexer

The clients send datagrams; the network loses, repeats, reorders and forges them. Each listener of
the server runs its own `runOnConn`, which puts the payload of a datagram into the queue of its
session after the replay check, so that the rounds of two listeners may overtake each other there.
`RecvBatch` takes the payloads out again in batches. Sessions are registered and closed meanwhile.

* `Net`, `Net.step`: clients, server, rounds that still have to queue a payload, queues and readers,
  with what has been sent, accepted, put and got so far;
* `Net.Genuine`: whatever opens was sent by the client of the session, under that counter;
* `receive_spec`: what a round of `runOnConn` does;
* `Net.Inv`, **`Inv.step`**, `Net.Ordered`: how the histories of a session hang together;
* **`got_at_most_once`**: what `RecvBatch` has returned was sent by the client, each payload at most
  as often as it was sent.
-/

namespace ObsidianVPN.Udp

open ByteStr ReplayWindow

def udpSessionQueueSize : ℕ := 8192
/-- The length of the batch of `udpClientToTUN`. -/
def recvBatchSize : ℕ := 32

/-- A call of `Send` that wrote a datagram. -/
structure SentPacket where
  ctr : ℕ
  payload : Bytes
  draws : SendDraws
  plain : Bytes

/-- A round of `runOnConn` before its last `select`. -/
structure Round where
  conn : ℕ
  session : ℕ
  payload : Bytes

/-- Where the reader of a session stands. -/
inductive Reader where
  | idle
  /-- In the loop of `RecvBatch`, with the packets so far. -/
  | batch (ps : List Bytes)
  | ended

/-- The packets of the call of `RecvBatch` that has not returned. -/
def Reader.held : Reader → List Bytes
  | .batch ps => ps
  | _ => []

@[simp] theorem held_idle : Reader.idle.held = [] := rfl
@[simp] theorem held_batch (ps : List Bytes) : (Reader.batch ps).held = ps := rfl
@[simp] theorem held_ended : Reader.ended.held = [] := rfl

/-- The clients and the server, and what has happened in each session. -/
@[ext]
structure Net where
  clients : ℕ → UDPChannel
  srv : UDPServer
  rounds : List Round
  queue : ℕ → List Bytes
  reader : ℕ → Reader
  /-- What the client has sent. -/
  sent : ℕ → List SentPacket
  /-- Counter and payload of the datagrams that passed the replay check, the last one first. -/
  accepted : ℕ → List (ℕ × Bytes)
  /-- The payloads offered to the queue. -/
  put : ℕ → List Bytes
  /-- The payloads that `RecvBatch` has returned. -/
  got : ℕ → List Bytes

/-- Which case of its `select` a reader takes. -/
inductive RecvChoice where
  | data
  | done
  | default

inductive NetEvent where
  | register (keys : UDPKeys) (cfg : UDPSettings)
  | close (i : ℕ)
  | send (i : ℕ) (payload : Bytes) (poolCap : ℕ) (r : SendDraws)
  | arrive (a : Arrival)
  /-- The `k`-th of the rounds comes to its last `select`. -/
  | enqueue (k : ℕ)
  | recv (i : ℕ) (choice : RecvChoice)

/-- The session has been closed. -/
def UDPServer.closed (srv : UDPServer) (i : ℕ) : Bool :=
  (srv.mux.sessions[i]?.map (·.closed)).getD false

namespace Net

section Steps

variable (U : UDPCiphers)

def register (net : Net) (keys : UDPKeys) (cfg : UDPSettings) : Net :=
  { net with srv := net.srv.registerSession keys cfg }

/-- What a call of `Send` adds to the history. -/
def sending (ch : UDPChannel) (payload : Bytes) (poolCap : ℕ) (r : SendDraws) : List SentPacket :=
  match framePlain ch.settings payload r, (ch.send U payload poolCap r).1 with
  | .ok plain, .ok _ => [⟨ch.sendCtr, payload, r, plain⟩]
  | _, _ => []

def send (net : Net) (i : ℕ) (payload : Bytes) (poolCap : ℕ) (r : SendDraws) : Net :=
  { net with
    clients := Function.update net.clients i ((net.clients i).send U payload poolCap r).2
    sent := Function.update net.sent i
      (net.sent i ++ sending U (net.clients i) payload poolCap r) }

/-- A datagram that passed the replay check. -/
def accept (net : Net) (i : ℕ) (x : ℕ × Bytes) : Net :=
  { net with accepted := Function.update net.accepted i (x :: net.accepted i) }

/-- A round up to its last `select`; a listener makes one round at a time. -/
def arrive (net : Net) (a : Arrival) : Option Net :=
  if net.rounds.any fun r => decide (r.conn = a.conn) then none
  else
    (net.srv.receive U a).map fun (o, srv) =>
      let ctr := ((net.srv.mux.identity U a.datagram).map Prod.snd).getD 0
      match o with
      | .ignored | .replayed _ => { net with srv := srv }
      | .echoed i _ => accept { net with srv := srv } i (ctr, [])
      | .offered i payload =>
        accept { net with srv := srv, rounds := net.rounds ++ [⟨a.conn, i, payload⟩] } i
          (ctr, payload)

/-- The queue after the last `select` of a round: a full one drops the payload. -/
def offer (queue : List Bytes) (payload : Bytes) : List Bytes :=
  if queue.length < udpSessionQueueSize then queue ++ [payload] else queue

/-- The last `select` of the `k`-th round. -/
def enqueue (net : Net) (k : ℕ) : Option Net :=
  net.rounds[k]?.map fun r =>
    { net with
      rounds := net.rounds.eraseIdx k
      put := Function.update net.put r.session (net.put r.session ++ [r.payload])
      queue := Function.update net.queue r.session (offer (net.queue r.session) r.payload) }

/-- `RecvBatch` returns. -/
def deliver (net : Net) (i : ℕ) (ps : List Bytes) : Net :=
  { net with
    got := Function.update net.got i (net.got i ++ ps)
    reader := Function.update net.reader i .idle }

/-- A packet is taken out of the queue, after those in `ps`. -/
def take (net : Net) (i : ℕ) (ps : List Bytes) : Option Net :=
  match net.queue i with
  | [] => none
  | p :: rest => some { net with
      queue := Function.update net.queue i rest
      reader := Function.update net.reader i (.batch (ps ++ [p])) }

/-- A `select` of `Recv` or `RecvBatch`; a batch that is full is returned. -/
def recv (net : Net) (i : ℕ) (choice : RecvChoice) : Option Net :=
  match net.reader i with
  | .ended => none
  | .idle =>
    match choice with
    | .data => net.take i []
    | .done =>
      if net.srv.closed i then some { net with reader := Function.update net.reader i .ended } else none
    | .default => none
  | .batch ps =>
    if ps.length < recvBatchSize then
      match choice with
      | .data => net.take i ps
      | .done => if net.srv.closed i then some (net.deliver i ps) else none
      | .default => if net.queue i = [] ∧ ¬net.srv.closed i then some (net.deliver i ps) else none
    else some (net.deliver i ps)

def step (net : Net) : NetEvent → Option Net
  | .register keys cfg => some (net.register keys cfg)
  | .close i => some { net with srv := { net.srv with mux := net.srv.mux.close i } }
  | .send i payload poolCap r => some (net.send U i payload poolCap r)
  | .arrive a => net.arrive U a
  | .enqueue k => net.enqueue k
  | .recv i choice => net.recv i choice

/-- Whatever opens for a session was sent by its client under that counter, and no client reaches the
end of its counters. -/
def Genuine (net : Net) : NetEvent → Prop
  | .arrive a =>
    match net.srv.mux.openDatagram U a.datagram with
    | none => True
    | some (i, _, ctr, plain) => ∃ q ∈ net.sent i, q.ctr = ctr ∧ q.plain = plain
  | .send i _ _ _ => (net.clients i).sendCtr + 1 < 2 ^ 64
  | _ => True

instance (net : Net) (e : NetEvent) : Decidable (net.Genuine U e) := by
  unfold Genuine
  split
  · split <;> infer_instance
  · infer_instance
  · infer_instance

end Steps

/-- The start: nothing has been sent. -/
def start (clients : ℕ → UDPChannel) (srv : UDPServer) : Net :=
  ⟨clients, srv, [], fun _ => [], fun _ => .idle, fun _ => [], fun _ => [], fun _ => [], fun _ => []⟩

end Net

/-! ## One round -/

section Round

variable {U : UDPCiphers}

/-- A datagram opens for a session of the multiplexer. -/
theorem session_of_openDatagram {m : UDPMux} {datagram plain : Bytes} {i ctr : ℕ} {s : UDPSession}
    (h : m.openDatagram U datagram = some (i, s, ctr, plain)) : m.sessions[i]? = some s := by
  simp only [UDPMux.openDatagram, UDPMux.pick, Option.bind_eq_bind, Option.bind_eq_some_iff] at h
  obtain ⟨r, ⟨packet, -, sel, -, s', hs', hr⟩, x, -, hx⟩ := h
  simp only [pure, Option.some.injEq] at hr hx
  subst hr
  simp only [Prod.mk.injEq] at hx
  rw [← hx.1, ← hx.2.1]
  exact hs'

theorem lt_of_openDatagram {m : UDPMux} {datagram plain : Bytes} {i ctr : ℕ} {s : UDPSession}
    (h : m.openDatagram U datagram = some (i, s, ctr, plain)) : i < m.sessions.length :=
  (List.getElem?_eq_some_iff.mp (session_of_openDatagram h)).1

/-- **What a round does.** A datagram that opens with a counter that passes is echoed or offered. -/
theorem receive_spec {srv srv' : UDPServer} {a : Arrival} {o : Outcome}
    (h : srv.receive U a = some (o, srv')) :
    srv'.mux.sessions = srv.mux.sessions ∧
    (((o = .ignored ∨ ∃ i, o = .replayed i) ∧ srv'.states = srv.states) ∨
      ∃ i s ctr plain w, srv.mux.openDatagram U a.datagram = some (i, s, ctr, plain) ∧
        (srv.states i).replay.check ctr = some (true, w) ∧ (srv'.states i).replay = w ∧
        (srv'.states i).settings = (srv.states i).settings ∧
        (∀ j, j ≠ i → srv'.states j = srv.states j) ∧
        ((∃ reply, o = .echoed i reply ∧
            unframe (srv.states i).settings.useBucketPadding plain = []) ∨
          (o = .offered i (unframe (srv.states i).settings.useBucketPadding plain) ∧
            unframe (srv.states i).settings.useBucketPadding plain ≠ []))) := by
  have hsessions := lookedUp_sessions srv.mux a.datagram
  unfold UDPServer.receive at h
  cases hopen : srv.mux.openDatagram U a.datagram with
  | none =>
    simp only [hopen, Option.some.injEq, Prod.mk.injEq] at h
    obtain ⟨rfl, rfl⟩ := h
    exact ⟨hsessions, .inl ⟨.inl rfl, rfl⟩⟩
  | some r =>
    obtain ⟨i, s, ctr, plain⟩ := r
    simp only [hopen] at h
    obtain ⟨⟨fresh, w⟩, hcheck, hres⟩ := Option.map_eq_some_iff.mp h
    cases fresh with
    | false =>
      obtain rfl := check_false hcheck
      simp only [Bool.false_eq_true, not_false_eq_true, if_true, Prod.mk.injEq] at hres
      obtain ⟨rfl, rfl⟩ := hres
      exact ⟨hsessions, .inl ⟨.inr ⟨i, rfl⟩, Function.update_eq_self i srv.states⟩⟩
    | true =>
      simp only [not_true_eq_false, if_false] at hres
      split at hres
      · rename_i hempty
        simp only [Prod.mk.injEq] at hres
        obtain ⟨rfl, rfl⟩ := hres
        refine ⟨hsessions, .inr ⟨i, s, ctr, plain, w, rfl, hcheck, ?_, ?_, fun j hj => ?_,
          .inl ⟨_, rfl, List.length_eq_zero_iff.mp hempty⟩⟩⟩
        · simp only [Function.update_self, SessionState.send]
          split <;> rfl
        · simp only [Function.update_self, SessionState.send]
          split <;> rfl
        · exact Function.update_of_ne hj _ _
      · rename_i hfull
        simp only [Prod.mk.injEq] at hres
        obtain ⟨rfl, rfl⟩ := hres
        refine ⟨hsessions, .inr ⟨i, s, ctr, plain, w, rfl, hcheck, ?_, ?_, fun j hj => ?_,
          .inr ⟨rfl, fun hnil => hfull (List.length_eq_zero_iff.mpr hnil)⟩⟩⟩
        · simp only [Function.update_self]
        · simp only [Function.update_self]
        · exact Function.update_of_ne hj _ _

end Round

/-! ## The histories of a session -/

section Histories

variable {U : UDPCiphers}

/-- The packets of a client carry different counters, below the next one. -/
structure Sending (ch : UDPChannel) (sent : List SentPacket) : Prop where
  counters : (sent.map SentPacket.ctr).Nodup
  bounded : ∀ q ∈ sent, q.ctr < ch.sendCtr
  framed : ∀ q ∈ sent, framePlain ch.settings q.payload q.draws = .ok q.plain

theorem mem_sending {ch : UDPChannel} {payload : Bytes} {poolCap : ℕ} {r : SendDraws}
    {q : SentPacket} (hq : q ∈ Net.sending U ch payload poolCap r) :
    q.ctr = ch.sendCtr ∧ framePlain ch.settings q.payload q.draws = .ok q.plain := by
  unfold Net.sending at hq
  split at hq
  · rename_i hplain _
    obtain rfl := List.mem_singleton.mp hq
    exact ⟨rfl, hplain⟩
  · exact absurd hq List.not_mem_nil

theorem nodup_sending (ch : UDPChannel) (payload : Bytes) (poolCap : ℕ) (r : SendDraws) :
    ((Net.sending U ch payload poolCap r).map SentPacket.ctr).Nodup := by
  unfold Net.sending
  split <;> simp

theorem Sending.send {ch : UDPChannel} {sent : List SentPacket} (h : Sending ch sent)
    (hctr : ch.sendCtr + 1 < 2 ^ 64) (payload : Bytes) (poolCap : ℕ) (r : SendDraws) :
    Sending (ch.send U payload poolCap r).2 (sent ++ Net.sending U ch payload poolCap r) := by
  have hnext : (ch.send U payload poolCap r).2.sendCtr = ch.sendCtr + 1 := Nat.mod_eq_of_lt hctr
  refine ⟨?_, fun q hq => ?_, fun q hq => ?_⟩
  · rw [List.map_append]
    refine h.counters.append (nodup_sending ch payload poolCap r) fun c hold hnew => ?_
    obtain ⟨q, hq, rfl⟩ := List.mem_map.mp hold
    obtain ⟨q', hq', heq⟩ := List.mem_map.mp hnew
    have hlt := h.bounded q hq
    have hctr' := (mem_sending hq').1
    omega
  · rw [hnext]
    rcases List.mem_append.mp hq with hq | hq
    · exact (h.bounded q hq).trans (Nat.lt_succ_self _)
    · rw [(mem_sending hq).1]
      exact Nat.lt_succ_self _
  · show framePlain ch.settings q.payload q.draws = .ok q.plain
    rcases List.mem_append.mp hq with hq | hq
    · exact h.framed q hq
    · exact (mem_sending hq).2

/-- The datagrams that a session accepted were sent, and none of them was accepted twice. -/
structure Accepting (st : SessionState) (sent : List SentPacket) (accepted : List (ℕ × Bytes)) :
    Prop where
  window : Remembers st.replay (accepted.map Prod.fst)
  fresh : (accepted.map Prod.fst).Nodup
  genuine : ∀ x ∈ accepted, ∃ q ∈ sent,
    q.ctr = x.1 ∧ unframe st.settings.useBucketPadding q.plain = x.2

theorem accepting_nil (st : SessionState) (sent : List SentPacket) : Accepting st sent [] where
  window := remembers_nil _
  fresh := List.nodup_nil
  genuine := nofun

theorem Accepting.mono {st : SessionState} {sent sent' : List SentPacket}
    {accepted : List (ℕ × Bytes)} (h : Accepting st sent accepted) (hsent : sent ⊆ sent') :
    Accepting st sent' accepted where
  window := h.window
  fresh := h.fresh
  genuine x hx := by
    obtain ⟨q, hq, heq⟩ := h.genuine x hx
    exact ⟨q, hsent hq, heq⟩

/-- **A counter that passes the replay check is new.** -/
theorem Accepting.accept {st st' : SessionState} {sent : List SentPacket}
    {accepted : List (ℕ × Bytes)} (h : Accepting st sent accepted) {ctr : ℕ} {w : Replay}
    (hcheck : st.replay.check ctr = some (true, w)) (hw : st'.replay = w)
    (hset : st'.settings = st.settings) {q : SentPacket} (hq : q ∈ sent) (hctr : q.ctr = ctr) :
    Accepting st' sent ((ctr, unframe st.settings.useBucketPadding q.plain) :: accepted) := by
  obtain ⟨hnew, hrem⟩ := h.window.check hcheck
  refine ⟨hw ▸ hrem, List.nodup_cons.mpr ⟨hnew, h.fresh⟩, fun x hx => ?_⟩
  rw [hset]
  rcases List.mem_cons.mp hx with rfl | hx
  · exact ⟨q, hq, hctr, rfl⟩
  · exact h.genuine x hx

/-- The accepted payloads that are not empty. -/
def offersOf (accepted : List (ℕ × Bytes)) : List Bytes :=
  (accepted.map Prod.snd).filter fun p => decide (p ≠ [])

theorem offersOf_cons_nil (ctr : ℕ) (accepted : List (ℕ × Bytes)) :
    offersOf ((ctr, []) :: accepted) = offersOf accepted := by
  simp [offersOf]

theorem offersOf_cons {payload : Bytes} (hne : payload ≠ []) (ctr : ℕ)
    (accepted : List (ℕ × Bytes)) :
    offersOf ((ctr, payload) :: accepted) = payload :: offersOf accepted := by
  simp [offersOf, hne]

/-- **What a session accepted was sent, each packet at most once.** -/
theorem Accepting.subperm {st : SessionState} {sent : List SentPacket}
    {accepted : List (ℕ × Bytes)} (h : Accepting st sent accepted) :
    (accepted.map Prod.snd).Subperm
      (sent.map fun q => unframe st.settings.useBucketPadding q.plain) := by
  -- different packets for different counters
  have hpairs : accepted.Subperm
      (sent.map fun q => (q.ctr, unframe st.settings.useBucketPadding q.plain)) := by
    refine List.subperm_of_subset h.fresh.of_map fun x hx => ?_
    obtain ⟨q, hq, hctr, hplain⟩ := h.genuine x hx
    exact List.mem_map.mpr ⟨q, hq, Prod.ext hctr hplain⟩
  obtain ⟨l, hperm, hsub⟩ := hpairs
  have hmap := hsub.map Prod.snd
  rw [List.map_map] at hmap
  exact ⟨_, hperm.map _, hmap⟩

end Histories

namespace Net

/-- The payloads that the rounds still have to queue for the session. -/
def waiting (rounds : List Round) (i : ℕ) : List Bytes :=
  (rounds.filter fun r => decide (r.session = i)).map Round.payload

/-- How the histories of the session `i` hang together. -/
structure Inv (net : Net) (i : ℕ) : Prop where
  sending : Sending (net.clients i) (net.sent i)
  accepting : Accepting (net.srv.states i) (net.sent i) (net.accepted i)
  offered : (waiting net.rounds i ++ net.put i).Perm (offersOf (net.accepted i))
  unused : net.srv.mux.sessions.length ≤ i → net.accepted i = []

theorem inv_start (clients : ℕ → UDPChannel) (srv : UDPServer) (i : ℕ) :
    (start clients srv).Inv i where
  sending := ⟨List.nodup_nil, nofun, nofun⟩
  accepting := accepting_nil _ _
  offered := .nil
  unused _ := rfl

variable {U : UDPCiphers} {net net' : Net} {i : ℕ}

theorem Inv.register (h : net.Inv i) (keys : UDPKeys) (cfg : UDPSettings) :
    (net.register keys cfg).Inv i where
  sending := h.sending
  accepting := by
    show Accepting (Function.update net.srv.states net.srv.mux.sessions.length _ i) (net.sent i)
      (net.accepted i)
    rcases eq_or_ne i net.srv.mux.sessions.length with heq | hne
    · rw [h.unused heq.ge]
      exact accepting_nil _ _
    · rw [Function.update_of_ne hne]
      exact h.accepting
  offered := h.offered
  unused hi := by
    refine h.unused ?_
    have hlen : (net.srv.mux.registerSession keys).sessions.length =
      net.srv.mux.sessions.length + 1 := by simp [UDPMux.registerSession]
    have : (net.srv.mux.registerSession keys).sessions.length ≤ i := hi
    omega

theorem length_close (m : UDPMux) (j : ℕ) : (m.close j).sessions.length = m.sessions.length := by
  unfold UDPMux.close
  cases m.sessions[j]? with
  | none => rfl
  | some s =>
    dsimp only
    split_ifs <;> simp [UDPMux.unregisterSession]

theorem Inv.close (h : net.Inv i) (j : ℕ) :
    Inv { net with srv := { net.srv with mux := net.srv.mux.close j } } i where
  sending := h.sending
  accepting := h.accepting
  offered := h.offered
  unused hi := by
    refine h.unused ?_
    rwa [← length_close net.srv.mux j]

theorem Inv.send (h : net.Inv i) {j : ℕ} (hctr : (net.clients j).sendCtr + 1 < 2 ^ 64)
    (payload : Bytes) (poolCap : ℕ) (r : SendDraws) : (net.send U j payload poolCap r).Inv i := by
  rcases eq_or_ne i j with rfl | hne
  · refine ⟨?_, ?_, h.offered, h.unused⟩
    · simp only [Net.send, Function.update_self]
      exact h.sending.send hctr payload poolCap r
    · simp only [Net.send, Function.update_self]
      exact h.accepting.mono (List.subset_append_left _ _)
  · refine ⟨?_, ?_, h.offered, h.unused⟩
    · simp only [Net.send, Function.update_of_ne hne]
      exact h.sending
    · simp only [Net.send, Function.update_of_ne hne]
      exact h.accepting

/-- The histories that a reader does not touch are the same, and so are the packets between the
queue and its caller, in order. -/
structure Reads (net net' : Net) : Prop where
  clients : net'.clients = net.clients
  srv : net'.srv = net.srv
  rounds : net'.rounds = net.rounds
  sent : net'.sent = net.sent
  accepted : net'.accepted = net.accepted
  put : net'.put = net.put
  flow : ∀ i, net'.got i ++ (net'.reader i).held ++ net'.queue i =
    net.got i ++ (net.reader i).held ++ net.queue i

theorem reads_take {j : ℕ} {ps : List Bytes} (hps : (net.reader j).held = ps)
    (hstep : net.take j ps = some net') : net.Reads net' := by
  unfold take at hstep
  cases hqueue : net.queue j with
  | nil => simp [hqueue] at hstep
  | cons p rest =>
    simp only [hqueue, Option.some.injEq] at hstep
    subst hstep
    refine ⟨rfl, rfl, rfl, rfl, rfl, rfl, fun i => ?_⟩
    rcases eq_or_ne i j with rfl | hne
    · simp [hps, hqueue]
    · simp [Function.update_of_ne hne]

theorem reads_deliver {j : ℕ} {ps : List Bytes} (hps : (net.reader j).held = ps) :
    net.Reads (net.deliver j ps) := by
  refine ⟨rfl, rfl, rfl, rfl, rfl, rfl, fun i => ?_⟩
  rcases eq_or_ne i j with rfl | hne
  · simp [deliver, hps]
  · simp [deliver, Function.update_of_ne hne]

theorem reads_recv {j : ℕ} {choice : RecvChoice} (hstep : net.recv j choice = some net') :
    net.Reads net' := by
  unfold recv at hstep
  cases hreader : net.reader j with
  | ended => simp [hreader] at hstep
  | idle =>
    have hheld : (net.reader j).held = [] := by rw [hreader]; rfl
    simp only [hreader] at hstep
    cases choice with
    | data => exact reads_take hheld hstep
    | default => cases hstep
    | done =>
      simp only [Option.ite_none_right_eq_some, Option.some.injEq] at hstep
      obtain ⟨-, rfl⟩ := hstep
      refine ⟨rfl, rfl, rfl, rfl, rfl, rfl, fun i => ?_⟩
      rcases eq_or_ne i j with rfl | hne
      · simp [hreader]
      · simp [Function.update_of_ne hne]
  | batch ps =>
    have hheld : (net.reader j).held = ps := by rw [hreader]; rfl
    simp only [hreader] at hstep
    split at hstep
    · cases choice with
      | data => exact reads_take hheld hstep
      | done =>
        simp only [Option.ite_none_right_eq_some, Option.some.injEq] at hstep
        exact hstep.2 ▸ reads_deliver hheld
      | default =>
        simp only [Option.ite_none_right_eq_some, Option.some.injEq] at hstep
        exact hstep.2 ▸ reads_deliver hheld
    · exact Option.some.inj hstep ▸ reads_deliver hheld

theorem Inv.recv (h : net.Inv i) {j : ℕ} {choice : RecvChoice}
    (hstep : net.recv j choice = some net') : net'.Inv i := by
  have hr := reads_recv hstep
  refine ⟨?_, ?_, ?_, ?_⟩
  · rw [hr.clients, hr.sent]
    exact h.sending
  · rw [hr.srv, hr.sent, hr.accepted]
    exact h.accepting
  · rw [hr.rounds, hr.put, hr.accepted]
    exact h.offered
  · rw [hr.srv, hr.accepted]
    exact h.unused

/-- A round that has come to its `select` waits no longer. -/
theorem waiting_eraseIdx {rounds : List Round} {k : ℕ} {r : Round} (hr : rounds[k]? = some r)
    (i : ℕ) : ((if r.session = i then [r.payload] else []) ++
      waiting (rounds.eraseIdx k) i).Perm (waiting rounds i) := by
  obtain ⟨hk, rfl⟩ := List.getElem?_eq_some_iff.mp hr
  have hperm := ((List.getElem_cons_eraseIdx_perm hk).filter
    fun r => decide (r.session = i)).map Round.payload
  rw [List.filter_cons] at hperm
  simp only [decide_eq_true_eq] at hperm
  split_ifs with hs
  · rw [if_pos hs] at hperm
    exact hperm
  · rw [if_neg hs] at hperm
    exact hperm

theorem Inv.enqueue (h : net.Inv i) {k : ℕ} (hstep : net.enqueue k = some net') :
    net'.Inv i := by
  obtain ⟨r, hr, rfl⟩ := Option.map_eq_some_iff.mp hstep
  have hwait := waiting_eraseIdx hr i
  refine ⟨h.sending, h.accepting, ?_, h.unused⟩
  refine List.Perm.trans ?_ h.offered
  show (waiting (net.rounds.eraseIdx k) i ++
    Function.update net.put r.session (net.put r.session ++ [r.payload]) i).Perm
      (waiting net.rounds i ++ net.put i)
  rcases eq_or_ne r.session i with rfl | hne
  · rw [if_pos rfl] at hwait
    rw [Function.update_self]
    rw [← List.append_assoc]
    exact (List.perm_append_singleton _ _).trans (hwait.append_right _)
  · rw [if_neg hne] at hwait
    rw [Function.update_of_ne hne.symm]
    exact hwait.append_right _

/-- Accepting a datagram changes one session. -/
theorem inv_accept (h : ∀ i, net.Inv i) {srv : UDPServer} {rounds : List Round} {j : ℕ}
    {x : ℕ × Bytes} (hsessions : srv.mux.sessions = net.srv.mux.sessions)
    (hj : j < net.srv.mux.sessions.length) (hother : ∀ i, i ≠ j → srv.states i = net.srv.states i)
    (hacc : Accepting (srv.states j) (net.sent j) (x :: net.accepted j))
    (hrounds : ∀ i, i ≠ j → waiting rounds i = waiting net.rounds i)
    (hoff : (waiting rounds j ++ net.put j).Perm
      (offersOf (x :: net.accepted j))) (i : ℕ) :
    (accept { net with srv := srv, rounds := rounds } j x).Inv i := by
  rcases eq_or_ne i j with rfl | hne
  · refine ⟨(h i).sending, ?_, ?_, fun hi => ?_⟩
    · simpa only [accept, Function.update_self] using hacc
    · simpa only [accept, Function.update_self] using hoff
    · have : srv.mux.sessions.length ≤ i := hi
      rw [hsessions] at this
      omega
  · refine ⟨(h i).sending, ?_, ?_, fun hi => ?_⟩
    · simpa only [accept, Function.update_of_ne hne, hother i hne] using (h i).accepting
    · have hoff := (h i).offered
      rw [← hrounds i hne] at hoff
      simpa only [accept, Function.update_of_ne hne] using hoff
    · have : srv.mux.sessions.length ≤ i := hi
      rw [hsessions] at this
      simpa only [accept, Function.update_of_ne hne] using (h i).unused this

theorem waiting_append (rounds : List Round) (r : Round) (i : ℕ) :
    waiting (rounds ++ [r]) i = waiting rounds i ++ if r.session = i then [r.payload] else [] := by
  unfold waiting
  rw [List.filter_append, List.map_append]
  split_ifs with hs
  · simp [hs]
  · simp [hs]

theorem Inv.arrive (h : ∀ i, net.Inv i) {a : Arrival} (hgen : net.Genuine U (.arrive a))
    (hstep : net.arrive U a = some net') (i : ℕ) : net'.Inv i := by
  unfold Net.arrive at hstep
  split at hstep
  · cases hstep
  · obtain ⟨⟨o, srv⟩, hrec, rfl⟩ := Option.map_eq_some_iff.mp hstep
    obtain ⟨hsessions, ⟨ho, hstates⟩ | ⟨j, s, ctr, plain, w, hopen, hcheck, hw, hset, hother, ho⟩⟩ :=
      receive_spec hrec
    · have hinv : Inv { net with srv := srv } i := by
        refine ⟨(h i).sending, ?_, (h i).offered, ?_⟩
        · rw [hstates]
          exact (h i).accepting
        · rw [hsessions]
          exact (h i).unused
      obtain rfl | ⟨j, rfl⟩ := ho
      · exact hinv
      · exact hinv
    · obtain ⟨q, hq, hctr, hplain⟩ : ∃ q ∈ net.sent j, q.ctr = ctr ∧ q.plain = plain := by
        simpa only [Genuine, hopen] using hgen
      have hid : ((net.srv.mux.identity U a.datagram).map Prod.snd).getD 0 = ctr := by
        simp [UDPMux.identity, hopen]
      have hacc := (h j).accepting.accept hcheck hw hset hq hctr
      rw [hplain] at hacc
      have hj := lt_of_openDatagram hopen
      obtain ⟨reply, rfl, hnil⟩ | ⟨rfl, hne⟩ := ho
      · rw [hnil] at hacc
        simp only [hid]
        refine inv_accept h hsessions hj hother hacc (fun _ _ => rfl) ?_ i
        rw [offersOf_cons_nil]
        exact (h j).offered
      · simp only [hid]
        refine inv_accept h hsessions hj hother hacc (fun k hk => ?_) ?_ i
        · rw [waiting_append, if_neg hk.symm, List.append_nil]
        · rw [waiting_append, if_pos rfl, offersOf_cons hne, List.append_assoc]
          exact List.perm_middle.trans ((h j).offered.cons _)

/-- **Every step keeps the histories of all sessions in line.** -/
theorem Inv.step (h : ∀ i, net.Inv i) {e : NetEvent} (hgen : net.Genuine U e)
    (hstep : net.step U e = some net') (i : ℕ) : net'.Inv i := by
  cases e with
  | register keys cfg => exact Option.some.inj hstep ▸ (h i).register keys cfg
  | close j => exact Option.some.inj hstep ▸ (h i).close j
  | send j payload poolCap r => exact Option.some.inj hstep ▸ (h i).send hgen payload poolCap r
  | arrive a => exact Inv.arrive h hgen hstep i
  | enqueue k => exact (h i).enqueue hstep
  | recv j choice => exact (h i).recv hstep

theorem Inv.run {es : List NetEvent} {clients : ℕ → UDPChannel} {srv : UDPServer}
    (hgen : Machine.Along (Net.step U) (Genuine U) (start clients srv) es)
    (hrun : Machine.run (Net.step U) (start clients srv) es = some net) (i : ℕ) : net.Inv i :=
  Machine.run_inv (I := fun net => ∀ i, net.Inv i) (fun _ _ _ h hg hstep => Inv.step h hg hstep)
    (inv_start clients srv) hgen hrun i

/-- What the readers have got and have still to get comes in the order of the queue. -/
def Ordered (net : Net) (i : ℕ) : Prop :=
  (net.got i ++ (net.reader i).held ++ net.queue i).Sublist (net.put i)

theorem Ordered.enqueue (h : net.Ordered i) {k : ℕ} (hstep : net.enqueue k = some net') :
    net'.Ordered i := by
  obtain ⟨r, hr, rfl⟩ := Option.map_eq_some_iff.mp hstep
  show (net.got i ++ (net.reader i).held ++ Function.update net.queue r.session _ i).Sublist
    (Function.update net.put r.session (net.put r.session ++ [r.payload]) i)
  rcases eq_or_ne r.session i with rfl | hne
  · rw [Function.update_self, Function.update_self, offer]
    split_ifs
    · rw [← List.append_assoc]
      exact h.append (List.Sublist.refl _)
    · exact h.trans (List.sublist_append_left _ _)
  · rw [Function.update_of_ne hne.symm, Function.update_of_ne hne.symm]
    exact h

/-- The order does not depend on what the datagrams are. -/
theorem Ordered.step (h : net.Ordered i) {e : NetEvent} (hstep : net.step U e = some net') :
    net'.Ordered i := by
  cases e with
  | register keys cfg => exact Option.some.inj hstep ▸ h
  | close j => exact Option.some.inj hstep ▸ h
  | send j payload poolCap r => exact Option.some.inj hstep ▸ h
  | arrive a =>
    simp only [Net.step, Net.arrive] at hstep
    split at hstep
    · cases hstep
    · obtain ⟨⟨o, srv⟩, -, rfl⟩ := Option.map_eq_some_iff.mp hstep
      cases o <;> exact h
  | enqueue k => exact h.enqueue hstep
  | recv j choice =>
    have hr := reads_recv hstep
    rw [Ordered, hr.flow, hr.put]
    exact h

theorem Ordered.run {es : List NetEvent} {clients : ℕ → UDPChannel} {srv : UDPServer}
    (hrun : Machine.run (Net.step U) (start clients srv) es = some net) (i : ℕ) :
    net.Ordered i := by
  have hstart : (start clients srv).Ordered i := List.Sublist.refl _
  exact Machine.run_keeps (fun _ _ _ h hstep => Ordered.step h hstep) hstart hrun

theorem Ordered.got_sublist (h : net.Ordered i) : (net.got i).Sublist (net.put i) := by
  refine List.Sublist.trans ?_ h
  rw [List.append_assoc]
  exact List.sublist_append_left _ _

/-- What the readers have got was accepted. -/
theorem Inv.got_subperm (h : net.Inv i) (hordered : net.Ordered i) :
    (net.got i).Subperm ((net.accepted i).map Prod.snd) := by
  have hput : (net.put i).Sublist (waiting net.rounds i ++ net.put i) := List.sublist_append_right _ _
  have hoff : (offersOf (net.accepted i)).Sublist ((net.accepted i).map Prod.snd) :=
    List.filter_sublist
  exact (hordered.got_sublist.trans hput).subperm.trans (h.offered.subperm.trans hoff.subperm)

end Net

/-! ## At most once -/

/-- The payload of the packet comes back from its plaintext. -/
def SentPacket.Intact (cfg : UDPSettings) (q : SentPacket) : Prop :=
  q.payload = [] ∨ q.payload.length < 2 ^ 16 ∧ Framable cfg q.payload q.draws.trailer

instance (cfg : UDPSettings) (q : SentPacket) : Decidable (q.Intact cfg) := by
  unfold SentPacket.Intact; infer_instance

theorem SentPacket.Intact.unframe {cfg : UDPSettings} {q : SentPacket} (h : q.Intact cfg)
    (hplain : framePlain cfg q.payload q.draws = .ok q.plain) :
    unframe cfg.useBucketPadding q.plain = q.payload := by
  rcases eq_or_ne q.payload [] with hnil | hne
  · have hempty : q.plain = [] := by
      rw [hnil] at hplain
      simpa [framePlain] using hplain.symm
    rw [hempty, hnil]
    simp [Udp.unframe]
  · obtain ⟨hlen, hfram⟩ := h.resolve_left hne
    obtain ⟨plain, heq, hun⟩ := (unframe_framePlain_iff cfg hne hlen q.draws).mpr hfram
    obtain rfl : plain = q.plain := Except.ok.inj (heq.symm.trans hplain)
    exact hun

/-- The plaintexts of the client give its payloads back. -/
theorem Net.Inv.unframe_sent {net : Net} {i : ℕ} (h : net.Inv i)
    (hpad : (net.srv.states i).settings.useBucketPadding =
      (net.clients i).settings.useBucketPadding)
    (hintact : ∀ q ∈ net.sent i, q.Intact (net.clients i).settings) :
    ((net.sent i).map fun q => unframe (net.srv.states i).settings.useBucketPadding q.plain) =
      (net.sent i).map SentPacket.payload := by
  refine List.map_congr_left fun q hq => ?_
  rw [hpad]
  exact (hintact q hq).unframe (h.sending.framed q hq)

/-- **At most once, across every interleaving.** -/
theorem got_at_most_once {U : UDPCiphers} {clients : ℕ → UDPChannel} {srv : UDPServer}
    {es : List NetEvent} {net : Net}
    (hgen : Machine.Along (Net.step U) (Net.Genuine U) (.start clients srv) es)
    (hrun : Machine.run (Net.step U) (.start clients srv) es = some net) (i : ℕ) :
    (net.got i).Subperm
      ((net.sent i).map fun q => unframe (net.srv.states i).settings.useBucketPadding q.plain) ∧
    (net.got i).Sublist (net.put i) ∧
    ((net.srv.states i).settings.useBucketPadding = (net.clients i).settings.useBucketPadding →
      (∀ q ∈ net.sent i, q.Intact (net.clients i).settings) →
        (net.got i).Subperm ((net.sent i).map SentPacket.payload)) := by
  have hinv := Net.Inv.run hgen hrun i
  have hordered := Net.Ordered.run hrun i
  have hsub := (hinv.got_subperm hordered).trans hinv.accepting.subperm
  refine ⟨hsub, hordered.got_sublist, fun hpad hintact => ?_⟩
  rwa [hinv.unframe_sent hpad hintact] at hsub

section Sample

def netClient : UDPChannel := newUDPChannel (sampleKeys ⟨1, 2, 3, 4⟩)

def netServer : UDPServer := ⟨newUDPMux, 0, fun _ => newSessionState 0⟩

/-- The datagrams of the payloads `1` and `2`, on the way to the listener `conn`. -/
def netArrival (conn : ℕ) : Bool → Arrival
  | false => ⟨conn, ⟨[10, 0, 0, 1], 4000⟩,
      (netClient.send .sample [1] 2048 sampleDraws).1.toOption.getD [], 2048, sampleDraws⟩
  | true => ⟨conn, ⟨[10, 0, 0, 1], 4000⟩,
      ((netClient.send .sample [1] 2048 sampleDraws).2.send .sample [2] 2048
        sampleDraws).1.toOption.getD [], 2048, sampleDraws⟩

/-- The second datagram comes first, on another listener; the first one comes twice. -/
def netEvents : List NetEvent :=
  [.register (sampleKeys ⟨1, 2, 3, 4⟩).swap defaultUDPSettings, .send 0 [1] 2048 sampleDraws,
    .send 0 [2] 2048 sampleDraws, .arrive (netArrival 1 true), .arrive (netArrival 0 false),
    .arrive (netArrival 2 false), .enqueue 0, .enqueue 0, .recv 0 .data, .recv 0 .data,
    .recv 0 .default]

def netStart : Net := .start (fun _ => netClient) netServer

def netEnd : Net := Machine.last (Net.step .sample) netStart netEvents

theorem got_at_most_once_reordered :
    netEnd.got 0 = [[2], [1]] ∧ (netEnd.sent 0).map SentPacket.payload = [[1], [2]] ∧
      (netEnd.got 0).Subperm ((netEnd.sent 0).map SentPacket.payload) := by
  have hrun : Machine.run (Net.step .sample) netStart netEvents = some netEnd :=
    Machine.run_eq_last (by decide +kernel)
  have hgen : Machine.Along (Net.step .sample) (Net.Genuine .sample) netStart netEvents := by
    decide +kernel
  refine ⟨by decide +kernel, by decide +kernel, ?_⟩
  exact (got_at_most_once hgen hrun 0).2.2 (by decide +kernel) (by decide +kernel)

end Sample

end ObsidianVPN.Udp
