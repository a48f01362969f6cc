import ObsidianVPN.Lib.Runs
import ObsidianVPN.Udp.EpochKeys

/-!
# The transition between epochs

A client and a session of a server exchange datagrams while each of them goes through the epochs
at its own pace. The network holds back datagrams, reorders and repeats them.

* `Link`: the two ends, the datagrams they have sent and which of them have been delivered;
  `Link.step`, `Link.run`: sends, ratchets, deliveries, and whatever the other sessions do;
* `Legible`: what a `Send` needs so that its datagram can be read;
* `Link.Inv`, **`Link.Inv.step`**: the invariant, and that every step keeps it;
* **`accepted_iff_epoch`**: a datagram delivered for the first time inside the replay window is
  accepted exactly in its own epoch and the next one, and opened with the keys of its own epoch.
-/

namespace ObsidianVPN.Udp

open ByteStr Runs ReplayWindow

/-- A datagram on its way, with the epoch and the counter it was sealed with. -/
structure Flight where
  epoch : ℕ
  ctr : ℕ
  datagram : Bytes

/-- The two ends, the datagrams sent in each direction, and the positions of those that have been
delivered. -/
structure Link where
  client : UDPChannel
  server : UDPServer
  clientEpoch : ℕ
  serverEpoch : ℕ
  toServer : List Flight
  toClient : List Flight
  reachedServer : List ℕ
  reachedClient : List ℕ

inductive Event where
  | clientSend (payload : Bytes) (poolCap : ℕ) (r : SendDraws)
  | serverSend (payload : Bytes) (poolCap : ℕ) (r : SendDraws)
  | clientRatchet
  | serverRatchet
  /-- The datagram at position `k` reaches a socket of the server. -/
  | toServer (k conn : ℕ) (addr : UDPAddr) (echoCap : ℕ) (echo : SendDraws)
  | toClient (k : ℕ) (dst : GoSlice)
  /-- Something happens to the other sessions. -/
  | elsewhere (op : Op) (states : ℕ → SessionState)

/-- The datagram of a `Send` that has succeeded. -/
def flightOf (epoch ctr : ℕ) : Except String Bytes → List Flight
  | .ok d => [⟨epoch, ctr, d⟩]
  | .error _ => []

/-- The answer that the server has sent to an empty datagram. -/
def Outcome.reply : Outcome → Except String Bytes
  | .echoed _ reply => reply.map Sent.data
  | _ => .error "no reply"

/-- The datagram has passed authentication and the replay check of the session `i`. -/
def Outcome.acceptedBy (i : ℕ) : Outcome → Prop
  | .echoed j _ => j = i
  | .offered j _ => j = i
  | _ => False

section Steps

variable (U : UDPCiphers) (E : List UDPKeys) (i : ℕ)

/-- One step of the link; `none` if a receiver hangs. -/
def Link.step (l : Link) : Event → Option Link
  | .clientSend payload poolCap r =>
    let sent := l.client.send U payload poolCap r
    some { l with
      client := sent.2
      toServer := l.toServer ++ flightOf l.clientEpoch l.client.sendCtr sent.1 }
  | .serverSend payload poolCap r =>
    match l.server.mux.sessions[i]? with
    | none => some l
    | some s =>
      let sent := (l.server.states i).send U s l.server.conn payload poolCap r
      some { l with
        server := { l.server with states := Function.update l.server.states i sent.2 }
        toClient := l.toClient ++
          flightOf l.serverEpoch (l.server.states i).sendCtr (sent.1.map Sent.data) }
  | .clientRatchet =>
    match E[l.clientEpoch + 1]? with
    | none => some l
    | some keys => some { l with
        client := l.client.ratchetEpoch keys
        clientEpoch := l.clientEpoch + 1 }
  | .serverRatchet =>
    match E[l.serverEpoch + 1]? with
    | none => some l
    | some keys => some { l with
        server := { l.server with mux := l.server.mux.ratchetEpoch i keys.swap }
        serverEpoch := l.serverEpoch + 1 }
  | .toServer k conn addr echoCap echo =>
    match l.toServer[k]? with
    | none => some l
    | some f =>
      (l.server.receive U ⟨conn, addr, f.datagram, echoCap, echo⟩).map fun (outcome, server) =>
        { l with
          server := server
          reachedServer := k :: l.reachedServer
          toClient := l.toClient ++
            flightOf l.serverEpoch (l.server.states i).sendCtr outcome.reply }
  | .toClient k dst =>
    match l.toClient[k]? with
    | none => some l
    | some f =>
      (l.client.recv U dst f.datagram).map fun (_, _, client) =>
        { l with
          client := client
          reachedClient := k :: l.reachedClient }
  | .elsewhere op states =>
    some { l with server := { l.server with
      mux := l.server.mux.step op
      states := Function.update states i (l.server.states i) } }

def Link.run (l : Link) (events : List Event) : Option Link := events.foldlM (Link.step U E i) l

/-- The client has a new channel with the keys, and the server has just registered the session. -/
def Link.start (srv : UDPServer) (keys : UDPKeys) (clientCfg serverCfg : UDPSettings) : Link where
  client := { newUDPChannel keys with settings := clientCfg }
  server := srv.registerSession keys.swap serverCfg
  clientEpoch := 0
  serverEpoch := 0
  toServer := []
  toClient := []
  reachedServer := []
  reachedClient := []

/-- What a `Send` needs so that its datagram can be read: the counter is not the last one, the
length fits the field of the STUN header, and without that header the packet does not look like a
message of another protocol. -/
structure Legible (cfg : UDPSettings) (key hp : Bytes) (tag : Tag) (ctr : ℕ) (payload : Bytes)
    (r : SendDraws) : Prop where
  counter : ctr + 1 < 2 ^ 64
  length : cfg.enableSTUN = true → payload.length ≤ 65507
  bare : cfg.enableSTUN = false → ∀ plain, framePlain cfg payload r = .ok plain →
    ¬LooksEncapsulated tag (sentCounter U key hp tag ctr plain)

/-- The step sends legible datagrams only, and the other sessions do not use the tags. -/
def Link.Fine (l : Link) : Event → Prop
  | .clientSend payload _ r =>
    Legible U l.client.settings l.client.encAEAD l.client.hp l.client.tag l.client.sendCtr payload r
  | .serverSend payload _ r => ∀ s, l.server.mux.sessions[i]? = some s →
    Legible U (l.server.states i).settings s.encAEAD s.hp s.tag (l.server.states i).sendCtr payload r
  | .toServer _ _ _ _ echo => ∀ s, l.server.mux.sessions[i]? = some s →
    Legible U (l.server.states i).settings s.encAEAD s.hp s.tag (l.server.states i).sendCtr [] echo
  | .elsewhere op _ => op.Foreign (epochTags E) i
  | _ => True

/-- The server accepts a datagram for the session `i`. -/
def UDPServer.Accepts (srv : UDPServer) (a : Arrival) : Prop :=
  ∃ outcome srv', srv.receive U a = some (outcome, srv') ∧ outcome.acceptedBy i

/-- The datagram passes authentication and the replay check of `Recv`. -/
def UDPChannel.Accepts (ch : UDPChannel) (datagram : Bytes) : Prop :=
  ∃ ctr plain w, ch.openDatagram U datagram = some (ctr, plain) ∧ ch.replay.check ctr = some (true, w)

end Steps

/-- The replay window still covers the counter. -/
def InWindow (w : Replay) (ctr : ℕ) : Prop := w.maxSeq < ctr ∨ w.maxSeq - ctr < 4096

variable {U : UDPCiphers} {E : List UDPKeys} {i : ℕ}

/-! ## Datagrams in flight -/

/-- The packet of a legible datagram is the sealed one. -/
theorem Legible.packetData (hU : U.AEADLawful) {cfg : UDPSettings} {key hp : Bytes} {tag : Tag}
    {ctr : ℕ} {payload : Bytes} {r : SendDraws} (h : Legible U cfg key hp tag ctr payload r)
    {plain : Bytes} (hplain : framePlain cfg payload r = .ok plain) {msgType bufCap : ℕ}
    (htype : (putBE 2 msgType).getD 0 0 &&& 0xC0 = 0) {d : Bytes}
    (hd : buildDatagram U cfg msgType key hp tag ctr plain bufCap r = .ok d) :
    Udp.packetData d = some (sealPacket U key hp tag ctr plain) := by
  cases hstun : cfg.enableSTUN with
  | true =>
    rw [buildDatagram_stun hU hstun (length_framePlain_lt (h.length hstun) hplain)] at hd
    split at hd
    · exact absurd hd (by simp)
    · obtain rfl := Except.ok.inj hd
      exact packetData_stun hU htype _ _ _ _ _ _ _
  | false =>
    have hoffset := (headerOffset_buildDatagram_iff hU htype hd).mpr (.inr (h.bare hstun plain hplain))
    simp only [buildDatagram, UDPSettings.placedOffset, hstun, Bool.false_eq_true, if_false]
      at hd hoffset
    split at hd
    · exact absurd hd (by simp)
    · obtain rfl := Except.ok.inj hd
      simp only [Udp.packetData, hoffset, length_sealPacket hU, List.drop_zero]
      rw [if_neg (by simp only [udpHeaderSize, udpTagSize, udpCounterSize, tagSize]; omega)]

variable (U E) in
/-- The datagrams of an end that seals with `key`, before it uses the counter `next`. -/
structure Flying (key : UDPKeys → Bytes) (next : ℕ) (flights : List Flight) : Prop where
  opens : ∀ f ∈ flights, ∃ keys plain, E[f.epoch]? = some keys ∧ packetData f.datagram =
    some (sealPacket U (key keys) keys.headerKey keys.sessionTag f.ctr plain)
  bounded : ∀ f ∈ flights, f.ctr + 1 < 2 ^ 64
  before : ∀ f ∈ flights, f.ctr < next
  ordered : flights.Pairwise (fun f g => f.ctr < g.ctr)

theorem flying_nil (key : UDPKeys → Bytes) (next : ℕ) : Flying U E key next [] :=
  ⟨by simp, by simp, by simp, .nil⟩

/-- One more `Send`, whether it succeeds or not. -/
theorem Flying.sent {key : UDPKeys → Bytes} {next : ℕ} {flights : List Flight}
    (h : Flying U E key next flights) (hnext : next + 1 < 2 ^ 64) {epoch : ℕ} {keys : UDPKeys}
    (hkeys : E[epoch]? = some keys) {res : Except String Bytes} (hres : ∀ d, res = .ok d → ∃ plain,
      packetData d = some (sealPacket U (key keys) keys.headerKey keys.sessionTag next plain)) :
    Flying U E key ((next + 1) % 2 ^ 64) (flights ++ flightOf epoch next res) := by
  rw [Nat.mod_eq_of_lt hnext]
  have hbefore : ∀ f ∈ flights, f.ctr < next + 1 := fun f hf => by have := h.before f hf; omega
  cases res with
  | error e => simpa [flightOf] using ⟨h.opens, h.bounded, hbefore, h.ordered⟩
  | ok d =>
    obtain ⟨plain, hplain⟩ := hres d rfl
    simp only [flightOf]
    refine ⟨fun f hf => ?_, fun f hf => ?_, fun f hf => ?_, ?_⟩
    · rcases List.mem_append.mp hf with hf | hf
      · exact h.opens f hf
      · obtain rfl := List.mem_singleton.mp hf
        exact ⟨keys, plain, hkeys, hplain⟩
    · rcases List.mem_append.mp hf with hf | hf
      · exact h.bounded f hf
      · obtain rfl := List.mem_singleton.mp hf
        exact hnext
    · rcases List.mem_append.mp hf with hf | hf
      · exact hbefore f hf
      · obtain rfl := List.mem_singleton.mp hf
        exact Nat.lt_succ_self _
    · refine List.pairwise_append.mpr ⟨h.ordered, List.pairwise_singleton _ _, fun f hf g hg => ?_⟩
      obtain rfl := List.mem_singleton.mp hg
      exact h.before f hf

/-- A counter belongs to one datagram. -/
theorem Flying.eq_of_ctr {key : UDPKeys → Bytes} {next : ℕ} {flights : List Flight}
    (h : Flying U E key next flights) {j k : ℕ} {f g : Flight} (hf : flights[j]? = some f)
    (hg : flights[k]? = some g) (hctr : f.ctr = g.ctr) : j = k := by
  obtain ⟨hj, rfl⟩ := List.getElem?_eq_some_iff.mp hf
  obtain ⟨hk, rfl⟩ := List.getElem?_eq_some_iff.mp hg
  have hord := List.pairwise_iff_getElem.mp h.ordered
  rcases Nat.lt_trichotomy j k with hlt | heq | hgt
  · exact absurd hctr (Nat.ne_of_lt (hord j k hj hk hlt))
  · exact heq
  · exact absurd hctr.symm (Nat.ne_of_lt (hord k j hk hj hgt))

/-- What a replay window has accepted are counters of delivered datagrams. -/
def Heard (w : Replay) (flights : List Flight) (reached : List ℕ) : Prop :=
  ∃ accepted, Tracks w accepted ∧
    ∀ c ∈ accepted, ∃ k ∈ reached, ∃ f, flights[k]? = some f ∧ f.ctr = c

theorem heard_zero : Heard .zero [] [] := ⟨[], tracks_zero, by simp⟩

theorem Heard.append {w : Replay} {flights : List Flight} {reached : List ℕ}
    (h : Heard w flights reached) (more : List Flight) : Heard w (flights ++ more) reached := by
  obtain ⟨accepted, htracks, hfrom⟩ := h
  refine ⟨accepted, htracks, fun c hc => ?_⟩
  obtain ⟨k, hk, f, hf, hctr⟩ := hfrom c hc
  exact ⟨k, hk, f, List.getElem?_append_left (List.getElem?_eq_some_iff.mp hf).1 ▸ hf, hctr⟩

theorem Heard.reach {w : Replay} {flights : List Flight} {reached : List ℕ}
    (h : Heard w flights reached) (k : ℕ) : Heard w flights (k :: reached) := by
  obtain ⟨accepted, htracks, hfrom⟩ := h
  refine ⟨accepted, htracks, fun c hc => ?_⟩
  obtain ⟨k', hk', hf⟩ := hfrom c hc
  exact ⟨k', List.mem_cons_of_mem _ hk', hf⟩

theorem Heard.check {w w' : Replay} {flights : List Flight} {reached : List ℕ}
    (h : Heard w flights reached) {k : ℕ} {f : Flight} (hf : flights[k]? = some f) {fresh : Bool}
    (hcheck : w.check f.ctr = some (fresh, w')) : Heard w' flights (k :: reached) := by
  cases fresh with
  | false =>
    rw [check_false hcheck]
    exact h.reach k
  | true =>
    obtain ⟨accepted, htracks, hfrom⟩ := h.reach k
    refine ⟨f.ctr :: accepted, htracks.check hcheck, fun c hc => ?_⟩
    rcases List.mem_cons.mp hc with rfl | hc
    · exact ⟨k, List.mem_cons_self, f, hf, rfl⟩
    · exact hfrom c hc

/-- The replay check comes to an end. -/
theorem Flying.check_ends {key : UDPKeys → Bytes} {next : ℕ} {flights : List Flight}
    (h : Flying U E key next flights) {k : ℕ} {f : Flight} (hf : flights[k]? = some f) (w : Replay) :
    ∃ fresh w', w.check f.ctr = some (fresh, w') := by
  have hbound := h.bounded f (List.mem_of_getElem? hf)
  cases hcheck : w.check f.ctr with
  | none => exact absurd (check_eq_none_iff.mp hcheck).2.2 (by omega)
  | some r => exact ⟨r.1, r.2, rfl⟩

/-- **The replay window accepts a datagram it covers, when it is delivered for the first time.** -/
theorem Heard.accepts {key : UDPKeys → Bytes} {next : ℕ} {w : Replay} {flights : List Flight}
    {reached : List ℕ} (h : Heard w flights reached) (hflying : Flying U E key next flights) {k : ℕ}
    {f : Flight} (hf : flights[k]? = some f) (hfirst : k ∉ reached) (hwindow : InWindow w f.ctr) :
    ∃ w', w.check f.ctr = some (true, w') := by
  obtain ⟨accepted, htracks, hfrom⟩ := h
  refine (htracks.check_iff (hflying.bounded f (List.mem_of_getElem? hf))).mpr ⟨fun hmem => ?_, hwindow⟩
  obtain ⟨j, hj, g, hg, hctr⟩ := hfrom _ hmem
  exact hfirst (hflying.eq_of_ctr hg hf hctr ▸ hj)

/-! ## One step -/

theorem sendCtr_send (st : SessionState) (s : UDPSession) (muxConn : ℕ) (payload : Bytes)
    (poolCap : ℕ) (r : SendDraws) :
    (st.send U s muxConn payload poolCap r).2.replay = st.replay ∧
    (((st.send U s muxConn payload poolCap r).2.sendCtr = st.sendCtr ∧
        ∃ e, (st.send U s muxConn payload poolCap r).1 = .error e) ∨
      (st.send U s muxConn payload poolCap r).2.sendCtr = (st.sendCtr + 1) % 2 ^ 64) := by
  unfold SessionState.send
  split
  · exact ⟨rfl, .inl ⟨rfl, _, rfl⟩⟩
  · split
    · exact ⟨rfl, .inl ⟨rfl, _, rfl⟩⟩
    · exact ⟨rfl, .inr rfl⟩

/-- A datagram that opens is checked for replays; an empty one is answered. -/
theorem receive_of_check {srv : UDPServer} {a : Arrival} {s : UDPSession} {ctr : ℕ}
    {plain : Bytes} (hopen : srv.mux.openDatagram U a.datagram = some (i, s, ctr, plain))
    {fresh : Bool} {w : Replay} (hcheck : (srv.states i).replay.check ctr = some (fresh, w)) :
    ∃ outcome srv', srv.receive U a = some (outcome, srv') ∧
      srv'.mux = srv.mux.lookedUp a.datagram ∧ (srv'.states i).replay = w ∧
      (outcome.acceptedBy i ↔ fresh = true) ∧
      (((srv'.states i).sendCtr = (srv.states i).sendCtr ∧ ∃ e, outcome.reply = .error e) ∨
        ∃ st : SessionState, st.sendCtr = (srv.states i).sendCtr ∧
          st.settings = (srv.states i).settings ∧
          outcome.reply = (st.send U s srv.conn [] a.poolCap a.draws).1.map Sent.data ∧
          srv'.states i = (st.send U s srv.conn [] a.poolCap a.draws).2) := by
  simp only [UDPServer.receive, hopen, hcheck, Option.map_some]
  cases fresh with
  | false =>
    refine ⟨_, _, rfl, rfl, ?_, ?_, .inl ⟨?_, _, rfl⟩⟩
    all_goals simp [Outcome.acceptedBy]
  | true =>
    simp only [not_true_eq_false, if_false]
    split
    · refine ⟨_, _, rfl, rfl, ?_, ?_, .inr ⟨_, ?_, ?_, rfl, Function.update_self ..⟩⟩
      · simp only [Function.update_self, sendCtr_send]
      · simp [Outcome.acceptedBy]
      · rfl
      · rfl
    · refine ⟨_, _, rfl, rfl, ?_, ?_, .inl ⟨?_, _, rfl⟩⟩
      all_goals simp [Outcome.acceptedBy]

theorem receive_of_not_open {srv : UDPServer} {a : Arrival}
    (hopen : srv.mux.openDatagram U a.datagram = none) :
    srv.receive U a = some (.ignored, { srv with mux := srv.mux.lookedUp a.datagram }) := by
  simp only [UDPServer.receive, hopen]

/-- `Recv` changes nothing but the replay window. -/
theorem recv_of_check {ch : UDPChannel} {d : Bytes} {ctr : ℕ} {plain : Bytes} (dst : GoSlice)
    (hopen : ch.openDatagram U d = some (ctr, plain)) {fresh : Bool} {w : Replay}
    (hcheck : ch.replay.check ctr = some (fresh, w)) :
    ∃ n dst', ch.recv U dst d = some (n, dst', { ch with replay := w }) := by
  simp only [UDPChannel.recv, hopen, hcheck, Option.map_some]
  split
  · exact ⟨_, _, rfl⟩
  · split
    · exact ⟨_, _, rfl⟩
    · split
      · exact ⟨_, _, rfl⟩
      · exact ⟨_, _, rfl⟩

theorem recv_of_not_open {ch : UDPChannel} {d : Bytes} (dst : GoSlice)
    (hopen : ch.openDatagram U d = none) : ch.recv U dst d = some (none, dst, ch) := by
  simp only [UDPChannel.recv, hopen]

variable (U E i) in
/-- **The invariant of a link.** -/
structure Link.Inv (l : Link) : Prop where
  client : l.client.InEpoch E l.clientEpoch
  server : l.server.mux.Holds E i l.serverEpoch
  up : Flying U E UDPKeys.sendKey l.client.sendCtr l.toServer
  down : Flying U E UDPKeys.recvKey (l.server.states i).sendCtr l.toClient
  heardUp : Heard (l.server.states i).replay l.toServer l.reachedServer
  heardDown : Heard l.client.replay l.toClient l.reachedClient

theorem inv_start (hE : (epochTags E).Nodup) {srv : UDPServer} (hclear : srv.mux.Clear (epochTags E))
    {keys : UDPKeys} (h0 : E[0]? = some keys) (clientCfg serverCfg : UDPSettings) :
    (Link.start srv keys clientCfg serverCfg).Inv U E srv.mux.sessions.length where
  client := ⟨keys, h0, rfl, rfl, rfl, rfl, .inl ⟨rfl, rfl⟩⟩
  server := hclear.registerSession hE h0
  up := flying_nil _ _
  down := flying_nil _ _
  heardUp := by
    simp only [Link.start, UDPServer.registerSession, Function.update_self]
    exact heard_zero
  heardDown := heard_zero

/-- The datagrams of a session that sends one more. -/
theorem Flying.sessionSend (hU : U.AEADLawful) {m : UDPMux} {epoch : ℕ} (hm : m.Holds E i epoch)
    {s : UDPSession} (hs : m.sessions[i]? = some s) {st : SessionState} {flights : List Flight}
    (h : Flying U E UDPKeys.recvKey st.sendCtr flights) {payload : Bytes} {r : SendDraws}
    (hlegible : Legible U st.settings s.encAEAD s.hp s.tag st.sendCtr payload r)
    (muxConn poolCap : ℕ) :
    Flying U E UDPKeys.recvKey (st.send U s muxConn payload poolCap r).2.sendCtr
      (flights ++ flightOf epoch st.sendCtr
        ((st.send U s muxConn payload poolCap r).1.map Sent.data)) := by
  obtain ⟨s', hs', cur, hswap, henc, -, hhp, htag, -⟩ := hm.session
  rw [hs] at hs'
  obtain rfl := Option.some.inj hs'
  obtain ⟨keys, hkeys, rfl⟩ := getElem?_swap hswap
  rcases (sendCtr_send st s muxConn payload poolCap r).2 with ⟨hctr, e, herr⟩ | hctr
  · rw [hctr, herr]
    simpa [flightOf, Except.map] using h
  · rw [hctr]
    refine h.sent hlegible.counter hkeys fun d hd => ?_
    cases hsent : (st.send U s muxConn payload poolCap r).1 with
    | error e => simp [hsent, Except.map] at hd
    | ok sent =>
      obtain rfl : sent.data = d := by simpa [hsent, Except.map] using hd
      obtain ⟨-, -, -, plain, hplain, hbuild⟩ := SessionState.send_eq_ok_iff.mp hsent
      have := hlegible.packetData hU hplain (by decide) hbuild
      rw [henc, hhp, htag] at this
      exact ⟨plain, this⟩

/-- A datagram reaches the server. -/
theorem Link.Inv.toServer (hU : U.AEADLawful) (hE : (epochTags E).Nodup) (hideal : IdealAcross U E)
    {l : Link} (h : l.Inv U E i) {k conn : ℕ} {addr : UDPAddr} {echoCap : ℕ} {echo : SendDraws}
    (hfine : l.Fine U E i (.toServer k conn addr echoCap echo)) :
    ∃ l', l.step U E i (.toServer k conn addr echoCap echo) = some l' ∧ l'.Inv U E i := by
  cases hf : l.toServer[k]? with
  | none => exact ⟨l, by simp only [Link.step, hf], h⟩
  | some f =>
    have hmem := List.mem_of_getElem? hf
    obtain ⟨keys, plain, hkeys, hdata⟩ := h.up.opens f hmem
    have hbound := h.up.bounded f hmem
    obtain ⟨hopens, hfails⟩ := h.server.openDatagram hU hideal hE hkeys (by omega) hdata
    by_cases hepoch : l.serverEpoch = f.epoch ∨ l.serverEpoch = f.epoch + 1
    · obtain ⟨s, hs, -, hopen⟩ := hopens hepoch
      obtain ⟨fresh, w, hcheck⟩ := h.up.check_ends hf (l.server.states i).replay
      obtain ⟨outcome, srv', hreceive, hmux, hreplay, -, hreply⟩ :=
        receive_of_check (a := ⟨conn, addr, f.datagram, echoCap, echo⟩) hopen hcheck
      simp only [Link.step, hf, hreceive, Option.map_some, Option.some.injEq, exists_eq_left']
      refine ⟨h.client, hmux ▸ h.server.lookedUp _, h.up, ?_, hreplay ▸ h.heardUp.check hf hcheck,
        h.heardDown.append _⟩
      rcases hreply with ⟨hctr, e, hnone⟩ | ⟨st, hctr, hcfg, hreply, hstate⟩
      · rw [hctr, hnone]
        simpa [flightOf] using h.down
      · have hdown := h.down
        have hlegible := hfine s hs
        rw [← hctr] at hdown hlegible
        rw [← hcfg] at hlegible
        rw [hstate, hreply, ← hctr]
        exact hdown.sessionSend hU h.server hs hlegible _ _
    · simp only [Link.step, hf, receive_of_not_open (a := ⟨conn, addr, f.datagram, echoCap, echo⟩)
        (hfails hepoch), Option.map_some, Option.some.injEq, exists_eq_left']
      refine ⟨h.client, h.server.lookedUp _, h.up, ?_, h.heardUp.reach k, h.heardDown.append _⟩
      simpa [flightOf, Outcome.reply] using h.down

/-- A datagram reaches the client. -/
theorem Link.Inv.toClient (hU : U.AEADLawful) (hE : (epochTags E).Nodup) {l : Link}
    (h : l.Inv U E i) (k : ℕ) (dst : GoSlice) :
    ∃ l', l.step U E i (.toClient k dst) = some l' ∧ l'.Inv U E i := by
  cases hf : l.toClient[k]? with
  | none => exact ⟨l, by simp only [Link.step, hf], h⟩
  | some f =>
    have hmem := List.mem_of_getElem? hf
    obtain ⟨keys, plain, hkeys, hdata⟩ := h.down.opens f hmem
    have hbound := h.down.bounded f hmem
    have hopen := h.client.openDatagram hU hE hkeys (by omega) hdata
    split at hopen
    · obtain ⟨fresh, w, hcheck⟩ := h.down.check_ends hf l.client.replay
      obtain ⟨n, dst', hrecv⟩ := recv_of_check dst hopen hcheck
      simp only [Link.step, hf, hrecv, Option.map_some, Option.some.injEq, exists_eq_left']
      exact ⟨h.client, h.server, h.up, h.down, h.heardUp, h.heardDown.check hf hcheck⟩
    · simp only [Link.step, hf, recv_of_not_open dst hopen, Option.map_some, Option.some.injEq,
        exists_eq_left']
      exact ⟨h.client, h.server, h.up, h.down, h.heardUp, h.heardDown.reach k⟩

/-- **Every step that sends legible datagrams comes to an end and keeps the invariant.** -/
theorem Link.Inv.step (hU : U.AEADLawful) (hE : (epochTags E).Nodup) (hideal : IdealAcross U E)
    {l : Link} (h : l.Inv U E i) {ev : Event} (hfine : l.Fine U E i ev) :
    ∃ l', l.step U E i ev = some l' ∧ l'.Inv U E i := by
  cases ev with
  | clientSend payload poolCap r =>
    obtain ⟨keys, hkeys, henc, -, hhp, htag, -⟩ := h.client
    have hlegible : Legible U l.client.settings l.client.encAEAD l.client.hp l.client.tag
      l.client.sendCtr payload r := hfine
    refine ⟨_, rfl, h.client, h.server, h.up.sent hlegible.counter hkeys fun d hd => ?_, h.down,
      h.heardUp.append _, h.heardDown⟩
    obtain ⟨plain, hplain, hbuild⟩ := UDPChannel.send_eq_ok_iff.mp hd
    have := hlegible.packetData hU hplain (by decide) hbuild
    rw [henc, hhp, htag] at this
    exact ⟨plain, this⟩
  | serverSend payload poolCap r =>
    obtain ⟨s, hs, -⟩ := h.server.session
    simp only [Link.step, hs, Option.some.injEq, exists_eq_left']
    refine ⟨h.client, h.server, h.up, ?_, ?_, h.heardDown.append _⟩
    · simp only [Function.update_self]
      exact h.down.sessionSend hU h.server hs (hfine s hs) _ _
    · simp only [Function.update_self, sendCtr_send]
      exact h.heardUp
  | clientRatchet =>
    cases hnext : E[l.clientEpoch + 1]? with
    | none => exact ⟨l, by simp only [Link.step, hnext], h⟩
    | some keys =>
      simp only [Link.step, hnext, Option.some.injEq, exists_eq_left']
      exact ⟨h.client.ratchetEpoch hnext, h.server, h.up, h.down, h.heardUp, h.heardDown⟩
  | serverRatchet =>
    cases hnext : E[l.serverEpoch + 1]? with
    | none => exact ⟨l, by simp only [Link.step, hnext], h⟩
    | some keys =>
      simp only [Link.step, hnext, Option.some.injEq, exists_eq_left']
      exact ⟨h.client, h.server.ratchetEpoch hE hnext, h.up, h.down, h.heardUp, h.heardDown⟩
  | toServer k conn addr echoCap echo => exact h.toServer hU hE hideal hfine
  | toClient k dst => exact h.toClient hU hE k dst
  | elsewhere op states =>
    refine ⟨_, rfl, h.client, h.server.foreign hfine, h.up, ?_, ?_, h.heardDown⟩
    · simpa only [Function.update_self] using h.down
    · simpa only [Function.update_self] using h.heardUp

/-! ## Runs -/

theorem Link.run_concat (l : Link) (events : List Event) (ev : Event) :
    l.run U E i (events ++ [ev]) = (l.run U E i events).bind fun l' => l'.step U E i ev := by
  simp [Link.run, List.foldlM_append, Option.bind_eq_bind]

theorem Link.Inv.run (hU : U.AEADLawful) (hE : (epochTags E).Nodup) (hideal : IdealAcross U E)
    {l : Link} (h : l.Inv U E i) {events : List Event}
    (hfine : EachStep (fun pre ev => ∀ l', l.run U E i pre = some l' → l'.Fine U E i ev) events) :
    ∃ l', l.run U E i events = some l' ∧ l'.Inv U E i := by
  induction events using List.reverseRecOn with
  | nil => exact ⟨l, rfl, h⟩
  | append_singleton events ev ih =>
    obtain ⟨hpre, hlast⟩ := (eachStep_concat _ _ _).mp hfine
    obtain ⟨l', hrun, hinv⟩ := ih hpre
    rw [Link.run_concat, hrun]
    exact hinv.step hU hE hideal (hlast l' hrun)

/-- What the server does with a datagram it covers, delivered for the first time. -/
theorem Link.Inv.server_accepts_iff (hU : U.AEADLawful) (hE : (epochTags E).Nodup)
    (hideal : IdealAcross U E) {l : Link} (h : l.Inv U E i) {k : ℕ} {f : Flight}
    (hf : l.toServer[k]? = some f) (hfirst : k ∉ l.reachedServer)
    (hwindow : InWindow (l.server.states i).replay f.ctr) {a : Arrival}
    (ha : a.datagram = f.datagram) :
    (l.server.Accepts U i a ↔ l.serverEpoch = f.epoch ∨ l.serverEpoch = f.epoch + 1) ∧
    (l.server.Accepts U i a → ∃ keys packet s, E[f.epoch]? = some keys ∧
      l.server.mux.pick a.datagram = some (packet, i, s, keys.sendKey, keys.headerKey)) := by
  have hmem := List.mem_of_getElem? hf
  obtain ⟨keys, plain, hkeys, hdata⟩ := h.up.opens f hmem
  have hbound := h.up.bounded f hmem
  rw [← ha] at hdata
  obtain ⟨hopens, hfails⟩ := h.server.openDatagram hU hideal hE hkeys (by omega) hdata
  obtain ⟨w, hcheck⟩ := h.heardUp.accepts h.up hf hfirst hwindow
  by_cases hepoch : l.serverEpoch = f.epoch ∨ l.serverEpoch = f.epoch + 1
  · obtain ⟨s, -, hpick, hopen⟩ := hopens hepoch
    obtain ⟨outcome, srv', hreceive, -, -, haccepted, -⟩ := receive_of_check hopen hcheck
    exact ⟨iff_of_true ⟨outcome, srv', hreceive, haccepted.mpr rfl⟩ hepoch,
      fun _ => ⟨keys, _, s, hkeys, hpick⟩⟩
  · have hnot : ¬l.server.Accepts U i a := by
      rintro ⟨outcome, srv', hreceive, haccepted⟩
      rw [receive_of_not_open (hfails hepoch)] at hreceive
      obtain ⟨rfl, -⟩ := Prod.mk.inj (Option.some.inj hreceive)
      exact haccepted
    exact ⟨iff_of_false hnot hepoch, fun hyes => absurd hyes hnot⟩

theorem Link.Inv.client_accepts_iff (hU : U.AEADLawful) (hE : (epochTags E).Nodup) {l : Link}
    (h : l.Inv U E i) {k : ℕ} {f : Flight} (hf : l.toClient[k]? = some f)
    (hfirst : k ∉ l.reachedClient) (hwindow : InWindow l.client.replay f.ctr) :
    (l.client.Accepts U f.datagram ↔ l.clientEpoch = f.epoch ∨ l.clientEpoch = f.epoch + 1) ∧
    (l.client.Accepts U f.datagram → ∃ keys packet, E[f.epoch]? = some keys ∧
      packetData f.datagram = some packet ∧
      l.client.recvKeys (Tag.read packet) = some (keys.recvKey, keys.headerKey)) := by
  have hmem := List.mem_of_getElem? hf
  obtain ⟨keys, plain, hkeys, hdata⟩ := h.down.opens f hmem
  have hbound := h.down.bounded f hmem
  have hopen := h.client.openDatagram hU hE hkeys (by omega) hdata
  have hrecvKeys := h.client.recvKeys hE hkeys
  obtain ⟨w, hcheck⟩ := h.heardDown.accepts h.down hf hfirst hwindow
  by_cases hepoch : l.clientEpoch = f.epoch ∨ l.clientEpoch = f.epoch + 1
  · rw [if_pos hepoch] at hopen hrecvKeys
    exact ⟨iff_of_true ⟨f.ctr, plain, w, hopen, hcheck⟩ hepoch,
      fun _ => ⟨keys, _, hkeys, hdata, hrecvKeys⟩⟩
  · rw [if_neg hepoch] at hopen
    have hnot : ¬l.client.Accepts U f.datagram := by
      rintro ⟨ctr, plain', w', hopen', -⟩
      rw [hopen] at hopen'
      exact absurd hopen' (by simp)
    exact ⟨iff_of_false hnot hepoch, fun hyes => absurd hyes hnot⟩

/-- **The transition between epochs.** In every run of legible sends, ratchets, deliveries and
operations on other sessions, a datagram delivered for the first time while the replay window covers
its counter is accepted exactly if the receiver is in the epoch of the datagram or in the next one,
and it is then opened with the keys of its own epoch. -/
theorem accepted_iff_epoch (hU : U.AEADLawful) (hE : (epochTags E).Nodup)
    (hideal : IdealAcross U E) {keys : UDPKeys} (h0 : E[0]? = some keys) {srv : UDPServer}
    (hclear : srv.mux.Clear (epochTags E)) (clientCfg serverCfg : UDPSettings) (events : List Event)
    (hfine : EachStep (fun pre ev => ∀ l,
      (Link.start srv keys clientCfg serverCfg).run U E srv.mux.sessions.length pre = some l →
        l.Fine U E srv.mux.sessions.length ev) events) :
    ∃ l, (Link.start srv keys clientCfg serverCfg).run U E srv.mux.sessions.length events = some l ∧
      (∀ k f, l.toServer[k]? = some f → k ∉ l.reachedServer →
        InWindow (l.server.states srv.mux.sessions.length).replay f.ctr →
        ∀ a : Arrival, a.datagram = f.datagram →
          (l.server.Accepts U srv.mux.sessions.length a ↔
            l.serverEpoch = f.epoch ∨ l.serverEpoch = f.epoch + 1) ∧
          (l.server.Accepts U srv.mux.sessions.length a → ∃ keys packet s, E[f.epoch]? = some keys ∧
            l.server.mux.pick a.datagram =
              some (packet, srv.mux.sessions.length, s, keys.sendKey, keys.headerKey))) ∧
      (∀ k f, l.toClient[k]? = some f → k ∉ l.reachedClient → InWindow l.client.replay f.ctr →
        (l.client.Accepts U f.datagram ↔ l.clientEpoch = f.epoch ∨ l.clientEpoch = f.epoch + 1) ∧
        (l.client.Accepts U f.datagram → ∃ keys packet, E[f.epoch]? = some keys ∧
          packetData f.datagram = some packet ∧
          l.client.recvKeys (Tag.read packet) = some (keys.recvKey, keys.headerKey))) := by
  obtain ⟨l, hrun, hinv⟩ :=
    (inv_start hE hclear h0 clientCfg serverCfg).run hU hE hideal hfine
  exact ⟨l, hrun,
    fun _ _ hf hfirst hwindow _ ha => hinv.server_accepts_iff hU hE hideal hf hfirst hwindow ha,
    fun _ _ hf hfirst hwindow => hinv.client_accepts_iff hU hE hf hfirst hwindow⟩

section Samples

/-- The keys of two epochs. -/
def sampleEpochs : List UDPKeys :=
  [⟨[1], [2], [3], ⟨1, 0, 0, 0⟩⟩, ⟨[4], [5], [6], ⟨2, 0, 0, 0⟩⟩]

def sampleStart : Link :=
  Link.start sampleServer ⟨[1], [2], [3], ⟨1, 0, 0, 0⟩⟩ defaultUDPSettings defaultUDPSettings

/-- The tag of the sample functions starts with the last byte of the key. -/
theorem sampleTag_ne {x y : UInt8} (hne : x ≠ y) (n p a n' p' a' : Bytes) :
    sampleTag [x] n p a ≠ sampleTag [y] n' p' a' := by
  intro heq
  have := congrArg List.head? heq
  simp [sampleTag, zeroPad, tagSize] at this
  exact hne this

theorem sample_open_none {x y : UInt8} (hne : x ≠ y) (n n' p a a' : Bytes) :
    UDPCiphers.sample.aeadOpen [y] n' (UDPCiphers.sample.aeadSeal [x] n p a) a' = none := by
  have htake : (p ++ sampleTag [x] n p a).take ((p ++ sampleTag [x] n p a).length - tagSize) = p := by
    simp [sampleTag, length_zeroPad]
  simp only [UDPCiphers.sample, Primitives.sample, htake, List.append_cancel_left_eq,
    sampleTag_ne hne, if_false]

theorem sample_idealAcross : IdealAcross .sample sampleEpochs := by
  intro e e' keys keys' he he' hne n n' p a a'
  rcases e with _ | _ | e <;> rcases e' with _ | _ | e' <;>
    simp only [sampleEpochs, List.getElem?_cons_zero, List.getElem?_cons_succ, List.getElem?_nil,
      Option.some.injEq, reduceCtorEq, zero_add] at he he'
  · exact absurd rfl hne
  · subst he he'
    exact sample_open_none (by decide) ..
  · subst he he'
    exact sample_open_none (by decide) ..
  · exact absurd rfl hne

theorem sample_clear : sampleServer.mux.Clear (epochTags sampleEpochs) where
  table := by decide
  sessions := by simp [sampleServer, newUDPMux]

/-- A datagram of epoch 0 that arrives after the server's ratchet is accepted. -/
theorem accepted_after_ratchet : ∃ l f,
    sampleStart.run .sample sampleEpochs 0 [.clientSend [1, 2, 3] 2048 sampleDraws, .serverRatchet] =
      some l ∧ l.toServer[0]? = some f ∧ f.epoch = 0 ∧ l.serverEpoch = 1 ∧
      l.server.Accepts .sample 0 ⟨0, sampleAddr, f.datagram, 2048, sampleDraws⟩ := by
  have hrun : ∃ l f, sampleStart.run .sample sampleEpochs 0
      [.clientSend [1, 2, 3] 2048 sampleDraws, .serverRatchet] = some l ∧ l.toServer[0]? = some f ∧
      f.epoch = 0 ∧ l.serverEpoch = 1 ∧ l.reachedServer = [] ∧
      InWindow (l.server.states 0).replay f.ctr :=
    ⟨_, _, rfl, rfl, rfl, rfl, rfl, .inr (by decide)⟩
  obtain ⟨l, f, hl, hf, hepoch, hserver, hreached, hwindow⟩ := hrun
  obtain ⟨l', hl', hup, -⟩ := accepted_iff_epoch UDPCiphers.sample_lawful (by decide)
    sample_idealAcross rfl sample_clear defaultUDPSettings defaultUDPSettings
    [.clientSend [1, 2, 3] 2048 sampleDraws, .serverRatchet] (by
      simp only [eachStep_cons, eachStep_nil, and_true]
      constructor
      · intro l hl
        obtain rfl := Option.some.inj hl
        exact ⟨by decide, fun _ => by decide, fun h => by cases h⟩
      · exact fun _ _ => trivial)
  obtain rfl := Option.some.inj (hl.symm.trans hl')
  refine ⟨l, f, hl, hf, hepoch, hserver, ?_⟩
  exact ((hup 0 f hf (by simp [hreached]) hwindow _ rfl).1).mpr (.inr (by rw [hserver, hepoch]))

/-- A payload of 65520 bytes is cut down to the header of its packet: the datagram of the current
epoch is not accepted. -/
theorem long_payload_lost : ∃ l f,
    sampleStart.run .sample sampleEpochs 0 [.clientSend (List.replicate 65520 0) 2048 sampleDraws] =
      some l ∧ l.toServer[0]? = some f ∧ f.epoch = l.serverEpoch ∧ l.reachedServer = [] ∧
      InWindow (l.server.states 0).replay f.ctr ∧
      ¬l.server.Accepts .sample 0 ⟨0, sampleAddr, f.datagram, 2048, sampleDraws⟩ := by
  have hpacket := length_sealPacket UDPCiphers.sample_lawful [1] [3] ⟨1, 0, 0, 0⟩ 0
    (List.replicate 65520 0)
  rw [List.length_replicate] at hpacket
  have hsend : (sampleStart.client.send .sample (List.replicate 65520 0) 2048 sampleDraws).1 =
      .ok (writeSTUNHeader 12 0x0001 0 ++
        (sealPacket .sample [1] [3] ⟨1, 0, 0, 0⟩ 0 (List.replicate 65520 0)).take 12) := by
    refine UDPChannel.send_eq_ok_iff.mpr ⟨List.replicate 65520 0, rfl, ?_⟩
    change buildDatagram .sample defaultUDPSettings 0x0001 [1] [3] ⟨1, 0, 0, 0⟩ 0
      (List.replicate 65520 0) _ sampleDraws = _
    have hroom := le_getUDPSendBuf 2048 (requiredBuf (List.replicate 65520 0))
    rw [requiredBuf, List.length_replicate] at hroom
    simp only [buildDatagram, UDPSettings.placedOffset, defaultUDPSettings, if_true, hpacket]
    rw [if_neg (by rw [requiredBuf, List.length_replicate, not_lt]; exact le_trans (by decide) hroom)]
    rfl
  have hdata : packetData (writeSTUNHeader 12 0x0001 0 ++
      (sealPacket .sample [1] [3] ⟨1, 0, 0, 0⟩ 0 (List.replicate 65520 0)).take 12) = none := by
    have htype : (putBE 2 0x0001).getD 0 0 &&& 0xC0 = 0 := by decide
    have hoffset := headerOffset_stun htype 12 0
      ((sealPacket .sample [1] [3] ⟨1, 0, 0, 0⟩ 0 (List.replicate 65520 0)).take 12)
    simp only [packetData, hoffset, List.length_append, length_writeSTUNHeader, List.length_take,
      hpacket]
    rfl
  refine ⟨_, ⟨0, 0, writeSTUNHeader 12 0x0001 0 ++
    (sealPacket .sample [1] [3] ⟨1, 0, 0, 0⟩ 0 (List.replicate 65520 0)).take 12⟩, rfl, ?_, rfl, rfl,
    .inr ?_, ?_⟩
  · simp only [hsend]
    rfl
  · exact Nat.zero_lt_succ _
  · rintro ⟨outcome, srv', hreceive, haccepted⟩
    have hopen : sampleStart.server.mux.openDatagram .sample (writeSTUNHeader 12 0x0001 0 ++
        (sealPacket .sample [1] [3] ⟨1, 0, 0, 0⟩ 0 (List.replicate 65520 0)).take 12) = none := by
      simp only [UDPMux.openDatagram, UDPMux.pick, hdata, Option.bind_eq_bind, Option.bind_none]
    rw [receive_of_not_open hopen] at hreceive
    obtain ⟨rfl, -⟩ := Prod.mk.inj (Option.some.inj hreceive)
    exact haccepted

end Samples

end ObsidianVPN.Udp
