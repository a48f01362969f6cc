import ObsidianVPN.Lib.ReplayWindow
import ObsidianVPN.Udp.Datagram

/-!
# The two ends of a UDP session

The client has a `UDPChannel`; the server has the multiplexer and, for each session, what sending
and receiving change. `none` is a receiver that hangs in the replay check.

* `UDPChannel.send`, `UDPChannel.recv`, `UDPChannel.ratchetEpoch`: the client;
* `SessionState.send`, `UDPServer.receive`: `UDPSession.Send` and one round of `runOnConn`;
* `UDPMux.openDatagram`: what `runOnConn` reads before it looks at the session's own state;
* **`headerOffset_send_iff`**: when the receiver looks for the header where it is.
-/

namespace ObsidianVPN.Udp

open ByteStr

/-- The anti-replay window of 4096 numbers. -/
abbrev Replay := ReplayWindow.Window 64

/-- The capacity of the buffer from `getUDPSendBuf`, when the pool hands out one of capacity
`poolCap`. -/
def getUDPSendBuf (poolCap size : ℕ) : ℕ := if poolCap ≥ size then poolCap else size

/-! ## The client -/

structure UDPChannel where
  encAEAD : Bytes
  decAEAD : Bytes
  prevDecAEAD : Option Bytes
  hp : Bytes
  prevHp : Option Bytes
  tag : Tag
  prevTag : Tag
  sendCtr : ℕ
  replay : Replay
  settings : UDPSettings

def newUDPChannel (keys : UDPKeys) : UDPChannel where
  encAEAD := keys.sendKey
  decAEAD := keys.recvKey
  prevDecAEAD := none
  hp := keys.headerKey
  prevHp := none
  tag := keys.sessionTag
  prevTag := .zero
  sendCtr := 0
  replay := .zero
  settings := defaultUDPSettings

def UDPChannel.ratchetEpoch (ch : UDPChannel) (keys : UDPKeys) : UDPChannel :=
  { ch with
    encAEAD := keys.sendKey
    hp := keys.headerKey
    tag := keys.sessionTag
    prevDecAEAD := some ch.decAEAD
    decAEAD := keys.recvKey
    prevHp := some ch.hp
    prevTag := ch.tag }

/-- A Go slice: the memory from its first element up to its capacity, and its length. -/
structure GoSlice where
  mem : Bytes
  len : ℕ
  len_le : len ≤ mem.length

/-- The elements of a slice. -/
def GoSlice.bytes (dst : GoSlice) : Bytes := dst.mem.take dst.len

/-- `append(dst[:0], src...)`, as far as the memory of `dst` sees it. -/
def GoSlice.appendEmpty (dst : GoSlice) (src : Bytes) : GoSlice :=
  if h : src.length ≤ dst.mem.length then
    ⟨src ++ dst.mem.drop src.length, dst.len, by have := dst.len_le; simp; omega⟩
  else dst

/-- `copy(dst, src)`. -/
def GoSlice.copy (dst : GoSlice) (src : Bytes) : GoSlice :=
  ⟨src.take dst.len ++ dst.mem.drop (src.take dst.len).length, dst.len, by
    have := dst.len_le; simp; omega⟩

section Channel

variable (U : UDPCiphers)

/-- The scratch space `Send` asks for. -/
def requiredBuf (payload : Bytes) : ℕ :=
  stunHeaderSize + udpHeaderSize + payload.length + tagSize + 64

/-- `sendWithBuffer`, on a buffer of the given capacity. -/
def UDPChannel.sendWithBuffer (ch : UDPChannel) (payload : Bytes) (bufCap : ℕ) (r : SendDraws) :
    Except String Bytes × UDPChannel :=
  let datagram := do
    let plain ← framePlain ch.settings payload r
    buildDatagram U ch.settings 0x0001 ch.encAEAD ch.hp ch.tag ch.sendCtr plain bufCap r
  (datagram, { ch with sendCtr := (ch.sendCtr + 1) % 2 ^ 64 })

/-- `UDPChannel.Send`, with the datagram it writes. -/
def UDPChannel.send (ch : UDPChannel) (payload : Bytes) (poolCap : ℕ) (r : SendDraws) :
    Except String Bytes × UDPChannel :=
  ch.sendWithBuffer U payload (getUDPSendBuf poolCap (requiredBuf payload)) r

/-- The AEAD key and the header key for a tag. -/
def UDPChannel.recvKeys (ch : UDPChannel) (tag : Tag) : Option (Bytes × Bytes) :=
  if tag = ch.tag then some (ch.decAEAD, ch.hp)
  else
    match ch.prevDecAEAD with
    | some dec => if tag = ch.prevTag then some (dec, ch.prevHp.getD ch.hp) else none
    | none => none

/-- The counter and the plaintext of a datagram that `Recv` can open. -/
def UDPChannel.openDatagram (ch : UDPChannel) (datagram : Bytes) : Option (ℕ × Bytes) := do
  let packet ← packetData datagram
  let keys ← ch.recvKeys (Tag.read packet)
  openPacket U keys.1 keys.2 packet

/-- `UDPChannel.Recv` on one datagram: the number of bytes it reports, if it does not wait for the
next one, and the destination. -/
def UDPChannel.recv (ch : UDPChannel) (dst : GoSlice) (datagram : Bytes) :
    Option (Option ℕ × GoSlice × UDPChannel) :=
  match ch.openDatagram U datagram with
  | none => some (none, dst, ch)
  | some (ctr, plain) =>
    let dst := dst.appendEmpty plain
    (ch.replay.check ctr).map fun (fresh, replay) =>
      let ch := { ch with replay := replay }
      if ¬fresh then (none, dst, ch)
      else
        let origLen := getBE (plain.take 2)
        if ch.settings.useBucketPadding ∧ plain.length ≥ 2 ∧
            origLen > 0 ∧ origLen ≤ plain.length - 2 then
          (some origLen, dst.copy (slice plain 2 origLen), ch)
        else if plain.length = 0 then (none, dst, ch)
        else (some plain.length, dst, ch)

end Channel

/-! ## The server -/

structure UDPAddr where
  ip : Bytes
  port : ℕ
  deriving DecidableEq

/-- The fields of `UDPSession` that the look-up does not read. Sockets are numbered. -/
structure SessionState where
  replay : Replay
  clientAddr : Option UDPAddr
  activeConn : Option ℕ
  sendCtr : ℕ
  settings : UDPSettings

/-- A datagram on its way out. -/
structure Sent where
  conn : ℕ
  addr : UDPAddr
  data : Bytes

/-- The multiplexer with its socket, and the states of its sessions. -/
structure UDPServer where
  mux : UDPMux
  conn : ℕ
  states : ℕ → SessionState

/-- A session as `RegisterSession` makes it, on the socket of the multiplexer. -/
def newSessionState (conn : ℕ) : SessionState where
  replay := .zero
  clientAddr := none
  activeConn := some conn
  sendCtr := 0
  settings := defaultUDPSettings

/-- `RegisterSession`, after which the caller gives the session its settings. -/
def UDPServer.registerSession (srv : UDPServer) (keys : UDPKeys) (cfg : UDPSettings) : UDPServer :=
  { srv with
    mux := srv.mux.registerSession keys
    states := Function.update srv.states srv.mux.sessions.length
      { newSessionState srv.conn with settings := cfg } }

/-- The keys of a session as the other end has them. -/
def UDPKeys.swap (keys : UDPKeys) : UDPKeys :=
  { keys with sendKey := keys.recvKey, recvKey := keys.sendKey }

/-- The AEAD key and the header key for the previous or the current epoch. -/
def UDPSession.recvKeys (s : UDPSession) (isPrevTag : Bool) : Bytes × Bytes :=
  if isPrevTag then (s.prevDecAEAD.getD s.decAEAD, s.prevHp.getD s.hp) else (s.decAEAD, s.hp)

/-- A datagram that a socket has received; the last two are for the echo. -/
structure Arrival where
  conn : ℕ
  addr : UDPAddr
  datagram : Bytes
  poolCap : ℕ
  draws : SendDraws

/-- What becomes of a datagram. -/
inductive Outcome where
  /-- It is too short, belongs to no session or is not authentic. -/
  | ignored
  | replayed (i : ℕ)
  /-- It is empty and the session `i` answers it. -/
  | echoed (i : ℕ) (reply : Except String Sent)
  /-- Its payload is offered to the queue of the session `i`. -/
  | offered (i : ℕ) (payload : Bytes)

section Server

variable (U : UDPCiphers)

/-- `UDPSession.Send`; `muxConn` is the socket of the multiplexer. -/
def SessionState.send (st : SessionState) (s : UDPSession) (muxConn : ℕ) (payload : Bytes)
    (poolCap : ℕ) (r : SendDraws) : Except String Sent × SessionState :=
  if s.closed then (.error "io: read/write on closed pipe", st)
  else
    match st.clientAddr with
    | none => (.error "client address not yet known", st)
    | some addr =>
      let sent := do
        let plain ← framePlain st.settings payload r
        let needed := st.settings.placedOffset + udpHeaderSize + plain.length + tagSize + 64
        let datagram ← buildDatagram U st.settings 0x0101 s.encAEAD s.hp s.tag st.sendCtr plain
          (getUDPSendBuf poolCap needed) r
        return ⟨st.activeConn.getD muxConn, addr, datagram⟩
      (sent, { st with sendCtr := (st.sendCtr + 1) % 2 ^ 64 })

/-- The multiplexer when a datagram has been looked up. -/
def UDPMux.lookedUp (m : UDPMux) (datagram : Bytes) : UDPMux :=
  match packetData datagram with
  | none => m
  | some packet => m.arrive (Tag.read packet)

/-- The packet of a datagram, its session, and the keys `runOnConn` picks. -/
def UDPMux.pick (m : UDPMux) (datagram : Bytes) : Option (Bytes × ℕ × UDPSession × Bytes × Bytes) := do
  let packet ← packetData datagram
  let (i, isPrevTag) ← m.select (Tag.read packet)
  let s ← m.sessions[i]?
  return (packet, i, s, s.recvKeys isPrevTag)

/-- The session, the counter and the plaintext of a datagram that `runOnConn` can open. -/
def UDPMux.openDatagram (m : UDPMux) (datagram : Bytes) : Option (ℕ × UDPSession × ℕ × Bytes) := do
  let (packet, i, s, dec, hp) ← m.pick datagram
  let (ctr, plain) ← openPacket U dec hp packet
  return (i, s, ctr, plain)

/-- One round of `runOnConn`. -/
def UDPServer.receive (srv : UDPServer) (a : Arrival) : Option (Outcome × UDPServer) :=
  let mux := srv.mux.lookedUp a.datagram
  match srv.mux.openDatagram U a.datagram with
  | none => some (.ignored, { srv with mux := mux })
  | some (i, s, ctr, plain) =>
    ((srv.states i).replay.check ctr).map fun (fresh, replay) =>
      if ¬fresh then
        (.replayed i, { srv with
          mux := mux
          states := Function.update srv.states i { srv.states i with replay := replay } })
      else
        let st := { srv.states i with
          replay := replay
          clientAddr := some a.addr
          activeConn := some a.conn }
        let actual := unframe st.settings.useBucketPadding plain
        if actual.length = 0 then
          let echo := st.send U s srv.conn [] a.poolCap a.draws
          (.echoed i echo.1, { srv with
            mux := mux
            states := Function.update srv.states i echo.2 })
        else
          (.offered i actual, { srv with
            mux := mux
            states := Function.update srv.states i st })

end Server

variable {U : UDPCiphers}

/-! ## What `Send` builds -/

/-- `Send` writes a datagram exactly when the plaintext and the datagram can be built. -/
theorem UDPChannel.send_eq_ok_iff {ch : UDPChannel} {payload : Bytes} {poolCap : ℕ} {r : SendDraws}
    {d : Bytes} : (ch.send U payload poolCap r).1 = .ok d ↔
      ∃ plain, framePlain ch.settings payload r = .ok plain ∧
        buildDatagram U ch.settings 0x0001 ch.encAEAD ch.hp ch.tag ch.sendCtr plain
          (getUDPSendBuf poolCap (requiredBuf payload)) r = .ok d := by
  simp only [UDPChannel.send, UDPChannel.sendWithBuffer]
  cases framePlain ch.settings payload r with
  | error e => simp [bind, Except.bind]
  | ok plain => simp [bind, Except.bind]

theorem SessionState.send_eq_ok_iff {st : SessionState} {s : UDPSession} {muxConn : ℕ}
    {payload : Bytes} {poolCap : ℕ} {r : SendDraws} {sent : Sent} :
    (st.send U s muxConn payload poolCap r).1 = .ok sent ↔
      s.closed = false ∧ st.clientAddr = some sent.addr ∧
      sent.conn = st.activeConn.getD muxConn ∧
      ∃ plain, framePlain st.settings payload r = .ok plain ∧
        buildDatagram U st.settings 0x0101 s.encAEAD s.hp s.tag st.sendCtr plain
          (getUDPSendBuf poolCap
            (st.settings.placedOffset + udpHeaderSize + plain.length + tagSize + 64)) r =
          .ok sent.data := by
  unfold SessionState.send
  cases s.closed with
  | true => simp
  | false =>
    cases st.clientAddr with
    | none => simp
    | some addr =>
      cases hplain : framePlain st.settings payload r with
      | error e => simp [bind, Except.bind]
      | ok plain =>
        simp only [bind, Except.bind, Bool.false_eq_true, if_false, Option.some.injEq,
          Except.ok.injEq, exists_eq_left', true_and]
        cases buildDatagram U st.settings 0x0101 s.encAEAD s.hp s.tag st.sendCtr plain
            (getUDPSendBuf poolCap
              (st.settings.placedOffset + udpHeaderSize + plain.length + tagSize + 64)) r with
        | error e => simp
        | ok d =>
          obtain ⟨conn, addr', data⟩ := sent
          simp only [pure, Except.pure, Except.ok.injEq, Sent.mk.injEq]
          tauto

/-- **The receiver looks for the header where `Send` has put it exactly when STUN is enabled or the
packet does not look like a message of another protocol**, at both ends. -/
theorem headerOffset_send_iff (hU : U.AEADLawful) :
    (∀ (ch : UDPChannel) (payload : Bytes) (poolCap : ℕ) (r : SendDraws) (d : Bytes),
      (ch.send U payload poolCap r).1 = .ok d →
      ∃ plain, framePlain ch.settings payload r = .ok plain ∧
        (headerOffset d = ch.settings.placedOffset ↔ ch.settings.enableSTUN = true ∨
          ¬LooksEncapsulated ch.tag
            (sentCounter U ch.encAEAD ch.hp ch.tag ch.sendCtr plain))) ∧
    (∀ (st : SessionState) (s : UDPSession) (muxConn : ℕ) (payload : Bytes) (poolCap : ℕ)
      (r : SendDraws) (sent : Sent), (st.send U s muxConn payload poolCap r).1 = .ok sent →
      ∃ plain, framePlain st.settings payload r = .ok plain ∧
        (headerOffset sent.data = st.settings.placedOffset ↔ st.settings.enableSTUN = true ∨
          ¬LooksEncapsulated s.tag
            (sentCounter U s.encAEAD s.hp s.tag st.sendCtr plain))) := by
  constructor
  · intro ch payload poolCap r d hd
    obtain ⟨plain, hplain, hbuild⟩ := UDPChannel.send_eq_ok_iff.mp hd
    exact ⟨plain, hplain, headerOffset_buildDatagram_iff hU (by decide) hbuild⟩
  · intro st s muxConn payload poolCap r sent hsent
    obtain ⟨-, -, -, plain, hplain, hbuild⟩ := SessionState.send_eq_ok_iff.mp hsent
    exact ⟨plain, hplain, headerOffset_buildDatagram_iff hU (by decide) hbuild⟩

section Samples

/-- The sample functions, with the block itself in place of its encryption. -/
def UDPCiphers.sample : UDPCiphers where
  toPrimitives := .sample
  aesEncrypt _ block := Vector.ofFn fun i => block.getD i 0

theorem UDPCiphers.sample_lawful : UDPCiphers.sample.AEADLawful := ObsidianVPN.sample_lawful.toAEADLawful

def sampleDraws : SendDraws := ⟨0, fun _ => 0, 0⟩

/-- The keys of a client with the given tag. -/
def sampleKeys (tag : Tag) : UDPKeys := ⟨[1], [2], [3], tag⟩

/-- Without STUN, a tag that starts with `80 60` is taken for an SRTP header. -/
theorem header_missed_srtp :
    ∃ d, (UDPChannel.send .sample { newUDPChannel (sampleKeys ⟨0x80, 0x60, 0, 0⟩) with
        settings := { defaultUDPSettings with enableSTUN := false } } [1] 2048 sampleDraws).1 = .ok d ∧
      headerOffset d = 12 ∧
      UDPSettings.placedOffset { defaultUDPSettings with enableSTUN := false } = 0 :=
  ⟨sealPacket .sample [1] [3] ⟨0x80, 0x60, 0, 0⟩ 0 [1], rfl, by decide, rfl⟩

/-- With STUN the same tag does no harm. -/
theorem header_found_stun :
    ∃ d, ((newUDPChannel (sampleKeys ⟨0x80, 0x60, 0, 0⟩)).send .sample [1] 2048 sampleDraws).1 =
        .ok d ∧ headerOffset d = stunHeaderSize := by
  have hd : ∃ d, ((newUDPChannel (sampleKeys ⟨0x80, 0x60, 0, 0⟩)).send .sample [1] 2048
      sampleDraws).1 = .ok d := ⟨_, rfl⟩
  obtain ⟨d, hd⟩ := hd
  obtain ⟨_, -, h⟩ := (headerOffset_send_iff UDPCiphers.sample_lawful).1 _ _ _ _ _ hd
  exact ⟨d, hd, h.mpr (.inl rfl)⟩

end Samples

end ObsidianVPN.Udp
