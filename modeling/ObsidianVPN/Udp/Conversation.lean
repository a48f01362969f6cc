import ObsidianVPN.Handshake.Complete
import ObsidianVPN.Udp.Delivery
import ObsidianVPN.Udp.RoundTrip

/-!
# A conversation over UDP

After the handshake both ends derive the keys of the data channel, the server registers a session
and the client opens a channel. From then on each end sends when it likes, and the network may lose
any datagram; the client also sends empty payloads, which the server echoes.

* `deriveUDPKeys`: the keys of the two ends, which are each other's swapped;
* `Talk`, `Talk.step`: a channel and its session, with what has come out at either end;
* `Ahead`: a window that accepts every counter from some number on;
* `Linked`, **`Linked.step`**: the two ends understand each other, and go on doing so;
* **`conversation_complete`**: from the handshake on, everything that is not lost arrives, in order,
  from the server as soon as it has heard from the client.
-/

namespace ObsidianVPN.Udp

open ByteStr GoString Handshake ReplayWindow

/-! ## The keys -/

/-- `DeriveUDPKeys`. -/
def deriveUDPKeys (P : Primitives) (sk : SessionKeys Bytes) (isClient : Bool) : UDPKeys :=
  let okm := P.hkdf (sk.clientKey ++ sk.serverKey) sk.sessionID (ascii "obsidian_udp_v2") 80
  let clientKey := slice okm 0 32
  let serverKey := slice okm 32 32
  { sendKey := if isClient then clientKey else serverKey
    recvKey := if isClient then serverKey else clientKey
    headerKey := slice okm 64 16
    sessionTag := Tag.read sk.sessionID }

/-- The server with another state of the session `i`. -/
def UDPServer.setState (srv : UDPServer) (i : ℕ) (st : SessionState) : UDPServer :=
  { srv with states := Function.update srv.states i st }

@[simp] theorem UDPServer.setState_self (srv : UDPServer) (i : ℕ) (st : SessionState) :
    (srv.setState i st).states i = st := Function.update_self ..

@[simp] theorem UDPServer.setState_setState (srv : UDPServer) (i : ℕ) (st st' : SessionState) :
    (srv.setState i st).setState i st' = srv.setState i st' := by
  simp [setState]

/-- The session has used its next counter. -/
def SessionState.used (st : SessionState) : SessionState := { st with sendCtr := st.sendCtr + 1 }

/-- The session has heard from a client, at an address and on a socket. -/
def SessionState.hears (st : SessionState) (w : Replay) (addr : UDPAddr) (conn : ℕ) :
    SessionState :=
  { st with replay := w, clientAddr := some addr, activeConn := some conn }

/-- A channel and the server, with what has come out of them. -/
structure Talk where
  ch : UDPChannel
  srv : UDPServer
  /-- The buffer in which the client receives. -/
  dst : GoSlice
  /-- The payloads that the server has offered to the queues of its sessions. -/
  up : List (ℕ × Bytes)
  /-- The payloads that `Recv` has returned. -/
  down : List Bytes

/-- How a datagram comes to the server, and the echo of an empty one to the client. -/
structure Passage where
  lost : Bool
  conn : ℕ
  addr : UDPAddr
  echoCap : ℕ
  echo : SendDraws
  echoLost : Bool

inductive Exchange where
  | up (payload : Bytes) (poolCap : ℕ) (r : SendDraws) (p : Passage)
  | down (payload : Bytes) (poolCap : ℕ) (r : SendDraws) (lost : Bool)

namespace Talk

section Steps

variable (U : UDPCiphers) (i : ℕ) (t : Talk)

/-- A datagram comes to the client. -/
def recv (datagram : Bytes) : Option Talk :=
  (t.ch.recv U t.dst datagram).map fun (n, dst, ch) =>
    match n with
    | some n => { t with ch := ch, dst := dst, down := t.down ++ [dst.bytes.take n] }
    | none => { t with ch := ch, dst := dst }

/-- A datagram comes to the server. -/
def arrive (d : Bytes) (p : Passage) : Option Talk :=
  (t.srv.receive U ⟨p.conn, p.addr, d, p.echoCap, p.echo⟩).bind fun (o, srv) =>
    match o with
    | .offered j payload => some { t with srv := srv, up := t.up ++ [(j, payload)] }
    | .echoed _ (.ok sent) =>
      if p.echoLost then some { t with srv := srv } else recv U { t with srv := srv } sent.data
    | _ => some { t with srv := srv }

/-- An exchange between the client and the session `i`. -/
def step : Exchange → Option Talk
  | .up payload poolCap r p =>
    let sent := t.ch.send U payload poolCap r
    match sent.1 with
    | .ok d => if p.lost then some { t with ch := sent.2 } else arrive U { t with ch := sent.2 } d p
    | .error _ => some { t with ch := sent.2 }
  | .down payload poolCap r lost =>
    match t.srv.mux.sessions[i]? with
    | none => some t
    | some s =>
      let sent := (t.srv.states i).send U s t.srv.conn payload poolCap r
      let srv := t.srv.setState i sent.2
      match sent.1 with
      | .ok sent =>
        if lost then some { t with srv := srv } else recv U { t with srv := srv } sent.data
      | .error _ => some { t with srv := srv }

end Steps

end Talk

/-- The payloads that should come to the server. -/
def Exchange.toServer : Exchange → List Bytes
  | .up payload _ _ p => if p.lost ∨ payload = [] then [] else [payload]
  | .down .. => []

/-- The server has heard from the client. -/
def Exchange.heard (known : Bool) : Exchange → Bool
  | .up _ _ _ p => known || !p.lost
  | .down .. => known

theorem heard_eq_false {known : Bool} {e : Exchange} (h : e.heard known = false) : known = false := by
  cases e with
  | up payload poolCap r p => exact (Bool.or_eq_false_iff.mp h).1
  | down payload poolCap r lost => exact h

/-- The payloads that should come to the client of a server that has heard from it. -/
def Exchange.toClient (known : Bool) : Exchange → List Bytes
  | .up .. => []
  | .down payload _ _ lost => if known ∧ ¬lost then [payload] else []

/-- The payloads that should come to the client in a conversation. -/
def toClient (known : Bool) : List Exchange → List Bytes
  | [] => []
  | e :: es => e.toClient known ++ toClient (e.heard known) es

/-- The payload can be framed and fits the buffers. -/
def Exchange.Fine (ccfg scfg : UDPSettings) (room : ℕ) : Exchange → Prop
  | .up payload poolCap r _ => payload.length ≤ 65507 - 48 ∧ (payload ≠ [] →
      Framable ccfg payload r.trailer ∧
        Fits ccfg payload r.trailer (getUDPSendBuf poolCap (requiredBuf payload)))
  | .down payload _ r _ => payload ≠ [] ∧ payload.length ≤ 65507 - 48 ∧ payload.length ≤ room ∧
      Framable scfg payload r.trailer

instance (ccfg scfg : UDPSettings) (room : ℕ) (e : Exchange) :
    Decidable (e.Fine ccfg scfg room) := by
  cases e <;> (unfold Exchange.Fine; infer_instance)

/-! ## Windows that are ahead -/

/-- The window accepts the counters from `n` on. -/
def Ahead (w : Replay) (n : ℕ) : Prop :=
  ∃ accepted, Tracks w accepted ∧ (∀ c ∈ accepted, c < n) ∧ w.maxSeq ≤ n

theorem Ahead.mono {w : Replay} {n m : ℕ} (h : Ahead w n) (hle : n ≤ m) : Ahead w m := by
  obtain ⟨accepted, htracks, hlt, hmax⟩ := h
  exact ⟨accepted, htracks, fun c hc => (hlt c hc).trans_le hle, hmax.trans hle⟩

theorem Ahead.check {w : Replay} {n : ℕ} (h : Ahead w n) (hn : n + 1 < 2 ^ 64) :
    ∃ w', w.check n = some (true, w') ∧ Ahead w' (n + 1) := by
  obtain ⟨accepted, htracks, hlt, hmax⟩ := h
  have hnew : n ∉ accepted := fun hmem => lt_irrefl n (hlt n hmem)
  have hnear : w.maxSeq < n ∨ w.maxSeq - n < 64 * 64 := by omega
  obtain ⟨w', hw'⟩ := (htracks.check_iff hn).mpr ⟨hnew, hnear⟩
  refine ⟨w', hw', n :: accepted, htracks.check hw', fun c hc => ?_, ?_⟩
  · rcases List.mem_cons.mp hc with rfl | hc
    · exact Nat.lt_succ_self _
    · exact (hlt c hc).trans (Nat.lt_succ_self _)
  · rw [(check_true hw').1]
    omega

/-! ## Two ends that understand each other -/

/-- The session that the server has for the client. -/
structure Matched (ch : UDPChannel) (s : UDPSession) : Prop where
  opened : s.closed = false
  tag : s.tag = ch.tag
  enc : s.encAEAD = ch.decAEAD
  dec : s.decAEAD = ch.encAEAD
  hp : s.hp = ch.hp

/-- The channel and the session `i` understand each other; `n` and `m` bound their counters. -/
structure Linked (ccfg scfg : UDPSettings) (room i : ℕ) (known : Bool) (n m : ℕ) (t : Talk) :
    Prop where
  settings : t.ch.settings = ccfg
  settingsBack : (t.srv.states i).settings = scfg
  select : t.srv.mux.select t.ch.tag = some (i, false)
  session : ∃ s, t.srv.mux.sessions[i]? = some s ∧ Matched t.ch s
  up : Ahead (t.srv.states i).replay t.ch.sendCtr
  down : Ahead t.ch.replay (t.srv.states i).sendCtr
  ctr : t.ch.sendCtr ≤ n
  ctrBack : (t.srv.states i).sendCtr ≤ m
  addr : (t.srv.states i).clientAddr.isSome = known
  dst : room ≤ t.dst.len

variable {U : UDPCiphers} {ccfg scfg : UDPSettings} {room i n m : ℕ} {known : Bool} {t : Talk}

/-- The look-up of a tag of its own leaves a session where it was found. -/
theorem select_arrive {m : UDPMux} {tag : Tag} {s : UDPSession} (hs : m.sessions[i]? = some s)
    (htag : s.tag = tag) (hselect : m.select tag = some (i, false)) :
    (m.arrive tag).select tag = some (i, false) := by
  unfold UDPMux.arrive
  split
  · rename_i r hmru htable
    have hr : r = (i, false) := by
      unfold UDPMux.select at hselect
      rw [hmru, htable] at hselect
      exact Option.some.inj hselect
    subst hr
    simp [UDPMux.select, UDPMux.mruSelect, hs, htag]
  · exact hselect

/-- What a plaintext becomes, with a payload that can be framed or an empty one. -/
theorem framePlain_fine {cfg : UDPSettings} {payload : Bytes} {r : SendDraws}
    (hlen : payload.length ≤ 65507 - 48) (hfr : payload ≠ [] → Framable cfg payload r.trailer) :
    ∃ plain, framePlain cfg payload r = .ok plain ∧ unframe cfg.useBucketPadding plain = payload ∧
      plain.length + 28 < 2 ^ 16 := by
  rcases eq_or_ne payload [] with rfl | hne
  · exact ⟨[], by simp [framePlain], by simp [unframe], by decide⟩
  · obtain ⟨plain, hplain, hun⟩ := (unframe_framePlain_iff cfg hne (by omega) r).mpr (hfr hne)
    exact ⟨plain, hplain, hun, length_framePlain_lt (by omega) hplain⟩

/-- The next datagram of the client. -/
theorem channel_send (hU : U.AEADLawful) {ch : UDPChannel} (hstun : ch.settings.enableSTUN = true)
    (hctr : ch.sendCtr + 1 < 2 ^ 64) {payload : Bytes} {poolCap : ℕ} {r : SendDraws}
    (hlen : payload.length ≤ 65507 - 48)
    (hfine : payload ≠ [] → Framable ch.settings payload r.trailer ∧
      Fits ch.settings payload r.trailer (getUDPSendBuf poolCap (requiredBuf payload))) :
    ∃ plain, unframe ch.settings.useBucketPadding plain = payload ∧
      ch.send U payload poolCap r =
        (.ok (writeSTUNHeader (plain.length + 28) 0x0001 r.txID ++
          sealPacket U ch.encAEAD ch.hp ch.tag ch.sendCtr plain),
        { ch with sendCtr := ch.sendCtr + 1 }) := by
  obtain ⟨plain, hplain, hun, hshort⟩ := framePlain_fine (r := r) hlen fun hne => (hfine hne).1
  have hroom : plain.length + 48 ≤ getUDPSendBuf poolCap (requiredBuf payload) := by
    rcases eq_or_ne payload [] with rfl | hne
    · have hempty : plain = [] := by simpa [framePlain] using hplain.symm
      have := le_getUDPSendBuf poolCap (requiredBuf [])
      rw [hempty]
      exact le_trans (by decide) this
    · exact (fits_iff hne hplain).mpr (hfine hne).2
  refine ⟨plain, hun, Prod.ext ?_ ?_⟩
  · rw [UDPChannel.send_eq_ok_iff]
    refine ⟨plain, hplain, ?_⟩
    rw [buildDatagram_stun hU hstun hshort, if_neg (by omega)]
  · show { ch with sendCtr := (ch.sendCtr + 1) % 2 ^ 64 } = _
    rw [Nat.mod_eq_of_lt hctr]

/-- The next datagram of a session that has heard from its client. -/
theorem session_send (hU : U.AEADLawful) {st : SessionState} {s : UDPSession}
    (hopened : s.closed = false) (hstun : st.settings.enableSTUN = true)
    (hctr : st.sendCtr + 1 < 2 ^ 64) (haddr : st.clientAddr.isSome = true) {payload : Bytes}
    (poolCap conn : ℕ) {r : SendDraws} (hlen : payload.length ≤ 65507 - 48)
    (hfr : payload ≠ [] → Framable st.settings payload r.trailer) :
    ∃ plain sent, unframe st.settings.useBucketPadding plain = payload ∧
      st.send U s conn payload poolCap r = (.ok sent, st.used) ∧
      sent.data = writeSTUNHeader (plain.length + 28) 0x0101 r.txID ++
        sealPacket U s.encAEAD s.hp s.tag st.sendCtr plain := by
  obtain ⟨plain, hplain, hun, hshort⟩ := framePlain_fine (r := r) hlen hfr
  obtain ⟨addr, haddr⟩ := Option.isSome_iff_exists.mp haddr
  let data := writeSTUNHeader (plain.length + 28) 0x0101 r.txID ++
    sealPacket U s.encAEAD s.hp s.tag st.sendCtr plain
  refine ⟨plain, ⟨st.activeConn.getD conn, addr, data⟩, hun, Prod.ext ?_ ?_, rfl⟩
  · refine SessionState.send_eq_ok_iff.mpr ⟨hopened, haddr, rfl, plain, hplain, ?_⟩
    have hroom := le_getUDPSendBuf poolCap
      (st.settings.placedOffset + udpHeaderSize + plain.length + tagSize + 64)
    rw [buildDatagram_stun hU hstun hshort, if_neg ?_]
    simp only [UDPSettings.placedOffset, hstun, if_true, stunHeaderSize, udpHeaderSize, udpTagSize,
      udpCounterSize, tagSize] at hroom ⊢
    omega
  · simp only [SessionState.send, hopened, Bool.false_eq_true, if_false, haddr,
      Nat.mod_eq_of_lt hctr, SessionState.used]

/-- **The client reads the next datagram of its session.** -/
theorem recv_next (hU : U.AEADLawful) {s : UDPSession} {st : SessionState} (hm : Matched t.ch s)
    (hstun : st.settings.enableSTUN = true) (hctr : st.sendCtr + 1 < 2 ^ 64)
    (haddr : st.clientAddr.isSome = true)
    (hpad : t.ch.settings.useBucketPadding = st.settings.useBucketPadding)
    (hahead : Ahead t.ch.replay st.sendCtr) {payload plain data : Bytes} {msgLen txID : ℕ}
    (hun : unframe st.settings.useBucketPadding plain = payload)
    (hdata : data = writeSTUNHeader msgLen 0x0101 txID ++
      sealPacket U s.encAEAD s.hp s.tag st.sendCtr plain) (hroom : payload.length ≤ t.dst.len) :
    ∃ w dst, Ahead w (st.sendCtr + 1) ∧ dst.len = t.dst.len ∧
      t.recv U data = some { t with
        ch := { t.ch with replay := w }
        dst := dst
        down := t.down ++ if payload = [] then [] else [payload] } := by
  obtain ⟨w, hw, hnext⟩ := hahead.check hctr
  have hfacing : FacingBack s st t.ch :=
    ⟨hstun, by omega, hm.opened, haddr, hm.tag, hm.enc.symm, hm.hp.symm, ⟨w, hw⟩, hpad⟩
  have hopen := hfacing.openDatagram hU msgLen txID plain
  rw [← hdata] at hopen
  obtain ⟨dst, hdst, hrecv, hstored⟩ := recv_of_open t.dst hopen hw
  rw [hpad, hun] at hrecv hstored
  refine ⟨w, dst, hnext, hdst, ?_⟩
  unfold Talk.recv
  rw [hrecv]
  rcases eq_or_ne payload [] with rfl | hne
  · simp
  · simp [hne, hstored hroom]

/-- What the server does with a datagram that opens under a new counter. -/
theorem receive_fresh {srv : UDPServer} {a : Arrival} {s : UDPSession} {ctr : ℕ} {plain : Bytes}
    {w : Replay} (hopen : srv.mux.openDatagram U a.datagram = some (i, s, ctr, plain))
    (hfresh : (srv.states i).replay.check ctr = some (true, w)) :
    srv.receive U a = some
      (let st := (srv.states i).hears w a.addr a.conn
       let srv' := { srv with mux := srv.mux.lookedUp a.datagram }
       if unframe (srv.states i).settings.useBucketPadding plain = [] then
        (.echoed i (st.send U s srv.conn [] a.poolCap a.draws).1,
          srv'.setState i (st.send U s srv.conn [] a.poolCap a.draws).2)
      else
        (.offered i (unframe (srv.states i).settings.useBucketPadding plain),
          srv'.setState i st)) := by
  simp only [UDPServer.receive, hopen, hfresh, Option.map_some, not_true_eq_false, if_false,
    List.length_eq_zero_iff, SessionState.hears, UDPServer.setState]

namespace Linked

theorem facing (h : Linked ccfg scfg room i known n m t) (hstun : ccfg.enableSTUN = true)
    (hpad : scfg.useBucketPadding = ccfg.useBucketPadding) (hn : n + 1 < 2 ^ 64) :
    Facing t.ch t.srv i := by
  obtain ⟨s, hs, hm⟩ := h.session
  have hctr := h.ctr
  obtain ⟨w, hw, -⟩ := h.up.check (by omega)
  exact ⟨h.settings ▸ hstun, by omega, h.select, ⟨s, hs, hm.dec, hm.hp⟩, ⟨w, hw⟩, by
    rw [h.settings, h.settingsBack, hpad]⟩

theorem mono {n' m' : ℕ} (h : Linked ccfg scfg room i known n m t) (hn : n ≤ n') (hm : m ≤ m') :
    Linked ccfg scfg room i known n' m' t :=
  { h with ctr := h.ctr.trans hn, ctrBack := h.ctrBack.trans hm }

/-- The client uses its next counter. -/
theorem sent (h : Linked ccfg scfg room i known n m t) :
    Linked ccfg scfg room i known (n + 1) m
      { t with ch := { t.ch with sendCtr := t.ch.sendCtr + 1 } } where
  settings := h.settings
  settingsBack := h.settingsBack
  select := h.select
  session := by
    obtain ⟨s, hs, hm⟩ := h.session
    exact ⟨s, hs, hm.opened, hm.tag, hm.enc, hm.dec, hm.hp⟩
  up := h.up.mono (Nat.le_succ _)
  down := h.down
  ctr := Nat.succ_le_succ h.ctr
  ctrBack := h.ctrBack
  addr := h.addr
  dst := h.dst

/-- The server hears a counter below the client's. -/
theorem heard (h : Linked ccfg scfg room i known n m t) {w : Replay} (hw : Ahead w t.ch.sendCtr)
    {mux : UDPMux} (hselect : mux.select t.ch.tag = some (i, false))
    (hsessions : mux.sessions = t.srv.mux.sessions) (addr : UDPAddr) (conn : ℕ)
    (up : List (ℕ × Bytes)) :
    Linked ccfg scfg room i true n m { t with
      srv := { t.srv with mux := mux }.setState i ((t.srv.states i).hears w addr conn)
      up := up } where
  settings := h.settings
  settingsBack := by
    rw [UDPServer.setState_self]
    exact h.settingsBack
  select := hselect
  session := by
    show ∃ s, mux.sessions[i]? = some s ∧ _
    rw [hsessions]
    exact h.session
  up := by
    rw [UDPServer.setState_self]
    exact hw
  down := by
    rw [UDPServer.setState_self]
    exact h.down
  ctr := h.ctr
  ctrBack := by
    rw [UDPServer.setState_self]
    exact h.ctrBack
  addr := by
    rw [UDPServer.setState_self]
    rfl
  dst := h.dst

/-- The session uses its next counter. -/
theorem answered (h : Linked ccfg scfg room i known n m t) :
    Linked ccfg scfg room i known n (m + 1)
      { t with srv := t.srv.setState i (t.srv.states i).used } where
  settings := h.settings
  settingsBack := by
    rw [UDPServer.setState_self]
    exact h.settingsBack
  select := h.select
  session := h.session
  up := by
    rw [UDPServer.setState_self]
    exact h.up
  down := by
    rw [UDPServer.setState_self]
    exact h.down.mono (Nat.le_succ _)
  ctr := h.ctr
  ctrBack := by
    rw [UDPServer.setState_self]
    exact Nat.succ_le_succ h.ctrBack
  addr := by
    rw [UDPServer.setState_self]
    exact h.addr
  dst := h.dst

/-- The client has received up to the counter of the session. -/
theorem got (h : Linked ccfg scfg room i known n m t) {w : Replay}
    (hw : Ahead w (t.srv.states i).sendCtr) {dst : GoSlice} (hdst : dst.len = t.dst.len)
    (down : List Bytes) :
    Linked ccfg scfg room i known n m
      { t with ch := { t.ch with replay := w }, dst := dst, down := down } where
  settings := h.settings
  settingsBack := h.settingsBack
  select := h.select
  session := by
    obtain ⟨s, hs, hm⟩ := h.session
    exact ⟨s, hs, hm.opened, hm.tag, hm.enc, hm.dec, hm.hp⟩
  up := h.up
  down := hw
  ctr := h.ctr
  ctrBack := h.ctrBack
  addr := h.addr
  dst := h.dst.trans_eq hdst.symm

/-- **A payload goes from the session to the client**, unless it is lost. -/
theorem deliver (hU : U.AEADLawful) (hstun : scfg.enableSTUN = true)
    (hpad : scfg.useBucketPadding = ccfg.useBucketPadding)
    (h : Linked ccfg scfg room i true n m t) (hm : m + 1 < 2 ^ 64) {s : UDPSession}
    (hs : t.srv.mux.sessions[i]? = some s) {payload : Bytes} (poolCap : ℕ) {r : SendDraws}
    (lost : Bool) (hlen : payload.length ≤ 65507 - 48) (hroom : payload.length ≤ room)
    (hfr : payload ≠ [] → Framable scfg payload r.trailer) :
    ∃ sent t', (t.srv.states i).send U s t.srv.conn payload poolCap r =
        (.ok sent, (t.srv.states i).used) ∧
      (let t₁ := { t with srv := t.srv.setState i (t.srv.states i).used }
       if lost then some t₁ else t₁.recv U sent.data) = some t' ∧
      Linked ccfg scfg room i true n (m + 1) t' ∧ t'.up = t.up ∧
      t'.down = t.down ++ if lost ∨ payload = [] then [] else [payload] := by
  have hctr := h.ctrBack
  have hcfg := h.settingsBack
  obtain ⟨s', hs', hmatched⟩ := h.session
  obtain rfl : s = s' := Option.some.inj (hs.symm.trans hs')
  obtain ⟨plain, sent, hun, hsend, hdata⟩ := session_send hU hmatched.opened (hcfg ▸ hstun)
    (by omega) h.addr poolCap t.srv.conn hlen (hcfg ▸ hfr)
  refine ⟨sent, ?_⟩
  cases lost with
  | true => exact ⟨_, hsend, rfl, h.answered, rfl, by simp⟩
  | false =>
    have hpad' : t.ch.settings.useBucketPadding = (t.srv.states i).settings.useBucketPadding := by
      rw [h.settings, hcfg, hpad]
    obtain ⟨w, dst, hw, hdst, hrecv⟩ := recv_next hU
      (t := { t with srv := t.srv.setState i (t.srv.states i).used })
      hmatched (hcfg ▸ hstun) (by omega) h.addr hpad' h.down hun hdata (hroom.trans h.dst)
    refine ⟨_, hsend, hrecv, h.answered.got ?_ hdst _, rfl, by simp⟩
    rw [UDPServer.setState_self]
    exact hw

/-- The look-up of a datagram of the client leaves its session where it is. -/
theorem select_lookedUp (hU : U.AEADLawful) (h : Linked ccfg scfg room i known n m t)
    (msgLen txID ctr : ℕ) (plain : Bytes) :
    (t.srv.mux.lookedUp (writeSTUNHeader msgLen 0x0001 txID ++
      sealPacket U t.ch.encAEAD t.ch.hp t.ch.tag ctr plain)).select t.ch.tag = some (i, false) := by
  obtain ⟨s, hs, hmatched⟩ := h.session
  have htype : (putBE 2 0x0001).getD 0 0 &&& 0xC0 = 0 := by decide
  have htag : Tag.read (sealPacket U t.ch.encAEAD t.ch.hp t.ch.tag ctr plain) = t.ch.tag := by
    rw [sealPacket, Tag.read_bytes_append]
  simp only [UDPMux.lookedUp, packetData_stun hU htype, htag]
  exact select_arrive hs hmatched.tag h.select

/-- **A datagram of the client arrives.** It is offered to the queue of the session, or echoed. -/
theorem arrive (hU : U.AEADLawful) (hstun : ccfg.enableSTUN = true)
    (hstun' : scfg.enableSTUN = true) (hpad : scfg.useBucketPadding = ccfg.useBucketPadding)
    (h : Linked ccfg scfg room i known n m t) (hn : n + 1 < 2 ^ 64) (hm : m + 1 < 2 ^ 64)
    (msgLen txID : ℕ) {plain payload : Bytes}
    (hun : unframe t.ch.settings.useBucketPadding plain = payload) (p : Passage) :
    ∃ t', Talk.arrive U { t with ch := { t.ch with sendCtr := t.ch.sendCtr + 1 } }
        (writeSTUNHeader msgLen 0x0001 txID ++
          sealPacket U t.ch.encAEAD t.ch.hp t.ch.tag t.ch.sendCtr plain) p = some t' ∧
      Linked ccfg scfg room i true (n + 1) (m + 1) t' ∧
      t'.up = t.up ++ (if payload = [] then [] else [(i, payload)]) ∧ t'.down = t.down := by
  have hctr := h.ctr
  obtain ⟨w, hfresh, hw⟩ := h.up.check (by omega)
  obtain ⟨s, hopen⟩ := (h.facing hstun hpad hn).openDatagram hU msgLen txID plain
  have hs := session_of_openDatagram hopen
  have hselect := h.select_lookedUp hU msgLen txID t.ch.sendCtr plain
  generalize writeSTUNHeader msgLen 0x0001 txID ++
    sealPacket U t.ch.encAEAD t.ch.hp t.ch.tag t.ch.sendCtr plain = d at hopen hselect ⊢
  rw [h.settings, ← hpad, ← h.settingsBack] at hun
  have hreceive := receive_fresh (a := ⟨p.conn, p.addr, d, p.echoCap, p.echo⟩) hopen hfresh
  simp only [hun] at hreceive
  unfold Talk.arrive
  rw [hreceive]
  have hheard := fun up => h.sent.heard (t := { t with ch := { t.ch with
    sendCtr := t.ch.sendCtr + 1 } }) hw hselect (lookedUp_sessions t.srv.mux d) p.addr p.conn up
  rcases eq_or_ne payload [] with rfl | hne
  · obtain ⟨sent, t', hsend, hgoes, hlinked, hup, hdown⟩ := (hheard t.up).deliver hU hstun' hpad hm
      ((congrArg (·[i]?) (lookedUp_sessions t.srv.mux d)).trans hs) p.echoCap (r := p.echo)
      p.echoLost (Nat.zero_le _) (Nat.zero_le _) (fun hne => absurd rfl hne)
    rw [UDPServer.setState_self] at hsend
    rw [UDPServer.setState_self, UDPServer.setState_setState] at hgoes
    refine ⟨t', ?_, hlinked, by simpa using hup, by simpa using hdown⟩
    have hecho : ((t.srv.states i).hears w p.addr p.conn).send U s t.srv.conn [] p.echoCap p.echo =
        (.ok sent, ((t.srv.states i).hears w p.addr p.conn).used) := hsend
    simp only [if_true, Option.bind_some, hecho]
    exact hgoes
  · simp only [if_neg hne, Option.bind_some]
    exact ⟨_, rfl, (hheard _).mono le_rfl (Nat.le_succ m), rfl, rfl⟩

/-- Before the server has heard from the client, `Send` fails before it takes a counter. -/
theorem send_unknown (h : Linked ccfg scfg room i false n m t) {s : UDPSession}
    (hs : t.srv.mux.sessions[i]? = some s) (payload : Bytes) (poolCap : ℕ) (r : SendDraws) :
    (t.srv.states i).send U s t.srv.conn payload poolCap r =
      (.error "client address not yet known", t.srv.states i) := by
  obtain ⟨s', hs', hmatched⟩ := h.session
  obtain rfl := Option.some.inj (hs.symm.trans hs')
  have haddr := Option.isSome_eq_false_iff.mp h.addr
  simp [SessionState.send, hmatched.opened, Option.isNone_iff_eq_none.mp haddr]

/-- **Every exchange does what it should**, and the two ends go on understanding each other. -/
theorem step (hU : U.AEADLawful) (hstun : ccfg.enableSTUN = true) (hstun' : scfg.enableSTUN = true)
    (hpad : scfg.useBucketPadding = ccfg.useBucketPadding)
    (h : Linked ccfg scfg room i known n n t) (hn : n + 1 < 2 ^ 64) {e : Exchange}
    (he : e.Fine ccfg scfg room) :
    ∃ t', t.step U i e = some t' ∧ Linked ccfg scfg room i (e.heard known) (n + 1) (n + 1) t' ∧
      t'.up = t.up ++ e.toServer.map (i, ·) ∧ t'.down = t.down ++ e.toClient known ∧
      (e.heard known = false → t'.srv = t.srv) := by
  cases e with
  | up payload poolCap r p =>
    have hctr := h.ctr
    obtain ⟨plain, hun, hsend⟩ := channel_send hU (h.settings.symm ▸ hstun) (by omega) (r := r) he.1
      (h.settings.symm ▸ he.2)
    simp only [Talk.step, hsend, Exchange.heard, Exchange.toServer, Exchange.toClient]
    cases hlost : p.lost with
    | true =>
      exact ⟨_, rfl, by simpa using h.sent.mono le_rfl (Nat.le_succ n), by simp, by simp, fun _ => rfl⟩
    | false =>
      obtain ⟨t', harrive, hlinked, hup, hdown⟩ := h.arrive hU hstun hstun' hpad hn hn
        (plain.length + 28) r.txID hun p
      refine ⟨t', harrive, by simpa using hlinked, ?_, by simpa using hdown, by simp⟩
      rw [hup]
      split <;> simp_all
  | down payload poolCap r lost =>
    obtain ⟨hne, hlen, hroom, hfr⟩ := he
    obtain ⟨s, hs, -⟩ := h.session
    simp only [Talk.step, hs, Exchange.heard, Exchange.toServer, Exchange.toClient]
    cases known with
    | true =>
      obtain ⟨sent, t', hsend, hgoes, hlinked, hup, hdown⟩ := h.deliver hU hstun' hpad hn hs poolCap
        lost hlen hroom fun _ => hfr
      rw [hsend]
      refine ⟨t', hgoes, hlinked.mono (Nat.le_succ n) le_rfl, by simpa using hup, ?_, nofun⟩
      rw [hdown]
      cases lost <;> simp [hne]
    | false =>
      have hsame : t.srv.setState i (t.srv.states i) = t.srv := by
        simp [UDPServer.setState]
      rw [h.send_unknown hs]
      simp only [hsame]
      exact ⟨t, rfl, h.mono (Nat.le_succ n) (Nat.le_succ n), by simp, by simp, fun _ => rfl⟩

/-- **A whole conversation.** -/
theorem run (hU : U.AEADLawful) (hstun : ccfg.enableSTUN = true) (hstun' : scfg.enableSTUN = true)
    (hpad : scfg.useBucketPadding = ccfg.useBucketPadding) {es : List Exchange}
    (hes : ∀ e ∈ es, e.Fine ccfg scfg room) (h : Linked ccfg scfg room i known n n t)
    (hn : n + es.length + 1 < 2 ^ 64) :
    ∃ t', Machine.run (Talk.step U i) t es = some t' ∧
      t'.up = t.up ++ (es.flatMap Exchange.toServer).map (i, ·) ∧
      t'.down = t.down ++ toClient known es ∧
      ((∀ e ∈ es, e.heard known = false) → t'.srv = t.srv) := by
  induction es generalizing t known n with
  | nil => exact ⟨t, rfl, by simp, by simp [toClient], fun _ => rfl⟩
  | cons e es ih =>
    rw [List.length_cons] at hn
    obtain ⟨t₁, hstep, hlinked, hup₁, hdown₁, hsrv₁⟩ := h.step hU hstun hstun' hpad (by omega)
      (hes e (List.mem_cons_self ..))
    obtain ⟨t', hrun, hup, hdown, hsrv⟩ :=
      ih (fun e' he' => hes e' (List.mem_cons_of_mem e he')) hlinked (by omega)
    refine ⟨t', ?_, ?_, ?_, ?_⟩
    · show (Talk.step U i t e).bind _ = _
      rw [hstep]
      exact hrun
    · rw [hup, hup₁, List.flatMap_cons, List.map_append, List.append_assoc]
    · rw [hdown, hdown₁, List.append_assoc]
      rfl
    · intro hunheard
      have hfirst := hunheard e (List.mem_cons_self ..)
      refine (hsrv fun e' he' => ?_).trans (hsrv₁ hfirst)
      obtain rfl := heard_eq_false hfirst
      rw [hfirst]
      exact hunheard e' (List.mem_cons_of_mem e he')

end Linked

/-- A new channel and a new session. -/
def Talk.start (keys : UDPKeys) (ccfg scfg : UDPSettings) (srv : UDPServer) (dst : GoSlice) :
    Talk where
  ch := { newUDPChannel keys with settings := ccfg }
  srv := srv.registerSession keys.swap scfg
  dst := dst
  up := []
  down := []

end ObsidianVPN.Udp
