import ObsidianVPN.Lib.Machine
import ObsidianVPN.Protocol.ParseInto
import ObsidianVPN.Protocol.TunnelWrite

/-!
# The receiving loop of a tunnel

`recvLoop` reads frames from the connection, and hands the payloads of DATA packets over to
`RecvData` and `RecvDataInto` through the channel `dataIn`. It runs beside the calls of
`writePacket`, the consumer, and `Close`. Both ends of a connection are such tunnels, and what
arrives at one of them is up to the network.

* `TunnelEnd`, `TunnelEnd.step`: an end with the position of its loop, and what can happen to it;
* `TunnelLink`, `TunnelLink.step`: the two ends, in any interleaving;
* `Sends`, `Sends.step`: what an end has framed; `Loyal`, `Loyal.step`: what it has parsed;
* **`taken_isPrefix`**: as long as no ciphertext is forged, the packets that a consumer takes are
  among those the other end has framed, in their order, and until `Close` drains the channel they are
  an initial part of them, whatever bytes the network delivers.
-/

namespace ObsidianVPN.Protocol

open ByteStr Machine

/-! ## One end -/

/-- Why `recvLoop` has returned. -/
inductive Ending where
  | expired
  | readFailed
  | invalidLen (frameLen : ℕ)
  | parseFailed (err : String)
  | cancelled
  | closePacket
  deriving DecidableEq, Repr

/-- Where `recvLoop` stands: before the head of a round, in one of the two calls of `io.ReadFull`,
at the channel with a payload, or past its end. -/
inductive RecvLoop where
  | head
  | readLen
  | readFrame (frameLen : ℕ)
  | offer (payload : Bytes)
  | ended (why : Ending)
  deriving DecidableEq, Repr

def tunnelDataQueueSize : ℕ := 256

/-- A frame that has been handed to the connection, with the counter of its nonce. -/
structure Framed where
  counter : ℕ
  packet : Packet
  frame : Bytes

/-- Who takes a packet out of the channel: a call of `RecvData`, or of `RecvDataInto` with a buffer
of the given size, or `drainDataIn`. -/
inductive Taker where
  | recv (size : Option ℕ)
  | drain
  deriving DecidableEq, Repr

/-- A tunnel with its loop, the bytes it has not read yet and its channel. The rest are histories:
the calls of `writePacket`, the packets framed, the bytes that have arrived, the packets parsed, the
payloads put into the channel and those that have left it. -/
structure TunnelEnd where
  tunnel : Tunnel
  loop : RecvLoop
  inbox : Bytes
  dataIn : List Bytes
  attempts : List Attempt
  framed : List Framed
  arrived : Bytes
  parsed : List Packet
  handed : List Bytes
  removed : List (Taker × Bytes)

/-- What happens at one end. -/
inductive TunnelEvent where
  | write (ptype : PacketType) (payload : Bytes) (r : Draws) (now : ℤ) (ws : List WriteResult)
  | arrive (bytes : Bytes)
  /-- The head of a round of the loop. -/
  | round (now : ℤ)
  /-- `io.ReadFull` returns; the buffer for the payload has any contents. -/
  | read (buf : ℕ → UInt8)
  | readError
  /-- The payload goes into the channel. -/
  | offer
  /-- The loop leaves its `select` because of the context. -/
  | giveUp
  /-- `RecvData`, or `RecvDataInto` with a buffer of the given size, takes a packet. -/
  | recv (size : Option ℕ)
  | cancel
  /-- A `select` of `drainDataIn`, once the loop has returned, takes a packet. -/
  | drain

/-- The packets that calls of `RecvData` and `RecvDataInto` have taken, with the size of the
buffer. -/
def takenOf (removed : List (Taker × Bytes)) : List (Option ℕ × Bytes) :=
  removed.filterMap fun
    | (.recv size, p) => some (size, p)
    | (.drain, _) => none

/-- The results of `RecvData` and `RecvDataInto` for a packet. -/
def recvResult : Option ℕ × Bytes → Except String Bytes
  | (none, pkt) => .ok pkt
  | (some size, pkt) => if size < pkt.length then .error "short buffer" else .ok pkt

namespace TunnelEnd

def taken (e : TunnelEnd) : List (Option ℕ × Bytes) := takenOf e.removed

/-- The payloads that calls of `RecvData` and `RecvDataInto` have returned. -/
def returned (e : TunnelEnd) : List Bytes :=
  e.taken.filterMap fun x => (recvResult x).toOption

def init (t : Tunnel) : TunnelEnd := ⟨t, .head, [], [], [], [], [], [], [], []⟩

/-- The deferred calls of `recvLoop`. -/
def finish (e : TunnelEnd) (why : Ending) : TunnelEnd :=
  { e with tunnel := { e.tunnel with cancelled := true }, loop := .ended why }

/-- The frame of a call of `writePacket`. -/
def framedBy (e : TunnelEnd) (packet : Packet) (a : Attempt) : List Framed :=
  match a.frame with
  | none => []
  | some (_, frame) => [⟨e.tunnel.framer.encCipher.counter, packet, frame⟩]

section Steps

variable (P : Primitives)

def write (e : TunnelEnd) (ptype : PacketType) (payload : Bytes) (r : Draws) (now : ℤ)
    (ws : List WriteResult) : TunnelEnd :=
  let a := e.tunnel.attempt P ptype payload r now ws
  { e with
    tunnel := a.2
    attempts := e.attempts ++ [a.1]
    framed := e.framed ++ e.framedBy ⟨ptype, payload⟩ a.1 }

/-- The head of a round. -/
def round (e : TunnelEnd) (now : ℤ) : TunnelEnd :=
  let expired := e.tunnel.sessionExpired e.tunnel.count.packetCount now
  { e with
    tunnel := e.tunnel.recvRound now
    loop := if expired then .ended .expired else .readLen }

/-- The length of the next frame. -/
def readLen (e : TunnelEnd) : TunnelEnd :=
  let r := e.tunnel.framer.decodeFrameLen P (getBE (e.inbox.take 4))
  let e := { e with tunnel := { e.tunnel with framer := r.2 }, inbox := e.inbox.drop 4 }
  if r.1 > maxFrameSize then e.finish (.invalidLen r.1) else { e with loop := .readFrame r.1 }

/-- What the loop does with a packet. -/
def dispatch (e : TunnelEnd) (p : Packet) : TunnelEnd :=
  let e := { e with parsed := e.parsed ++ [p] }
  match p.type with
  | .data => { e with loop := .offer p.payload }
  | .close => e.finish .closePacket
  | _ => { e with loop := .head }

/-- The frame itself. -/
def readFrame (e : TunnelEnd) (frameLen : ℕ) (buf : ℕ → UInt8) : TunnelEnd :=
  let r := e.tunnel.framer.parseFrameInto P (fill frameLen buf) (e.inbox.take frameLen)
  let e := { e with tunnel := { e.tunnel with framer := r.2 }, inbox := e.inbox.drop frameLen }
  match r.1 with
  | .error err => e.finish (.parseFailed err)
  | .ok (ptype, payLen, dst) => e.dispatch ⟨ptype, dst.take payLen⟩

/-- One step of an end; `none` if it is not possible now. -/
def step (e : TunnelEnd) : TunnelEvent → Option TunnelEnd
  | .write ptype payload r now ws => some (e.write P ptype payload r now ws)
  | .arrive bytes => some { e with inbox := e.inbox ++ bytes, arrived := e.arrived ++ bytes }
  | .round now => if e.loop = .head then some (e.round now) else none
  | .read buf =>
    match e.loop with
    | .readLen => if 4 ≤ e.inbox.length then some (e.readLen P) else none
    | .readFrame n => if n ≤ e.inbox.length then some (e.readFrame P n buf) else none
    | _ => none
  | .readError =>
    match e.loop with
    | .readLen | .readFrame _ => some (e.finish .readFailed)
    | _ => none
  | .offer =>
    match e.loop with
    | .offer p =>
      if e.dataIn.length < tunnelDataQueueSize then
        some { e with dataIn := e.dataIn ++ [p], handed := e.handed ++ [p], loop := .head }
      else none
    | _ => none
  | .giveUp =>
    match e.loop with
    | .offer _ => if e.tunnel.cancelled then some (e.finish .cancelled) else none
    | _ => none
  | .recv size =>
    match e.dataIn with
    | [] => none
    | p :: rest => some { e with dataIn := rest, removed := e.removed ++ [(.recv size, p)] }
  | .cancel => some { e with tunnel := { e.tunnel with cancelled := true } }
  | .drain =>
    match e.loop, e.dataIn with
    | .ended _, p :: rest => some { e with dataIn := rest, removed := e.removed ++ [(.drain, p)] }
    | _, _ => none

/-- The steps of an end, with what each of them needs. -/
inductive Stepped (e : TunnelEnd) : TunnelEvent → TunnelEnd → Prop where
  | write (ptype : PacketType) (payload : Bytes) (r : Draws) (now : ℤ) (ws : List WriteResult) :
      Stepped e (.write ptype payload r now ws) (e.write P ptype payload r now ws)
  | arrive (bytes : Bytes) :
      Stepped e (.arrive bytes) { e with inbox := e.inbox ++ bytes, arrived := e.arrived ++ bytes }
  | round (now : ℤ) (hloop : e.loop = .head) : Stepped e (.round now) (e.round now)
  | readLen (buf : ℕ → UInt8) (hloop : e.loop = .readLen) (hlen : 4 ≤ e.inbox.length) :
      Stepped e (.read buf) (e.readLen P)
  | readFrame (n : ℕ) (buf : ℕ → UInt8) (hloop : e.loop = .readFrame n) (hlen : n ≤ e.inbox.length) :
      Stepped e (.read buf) (e.readFrame P n buf)
  | readError (hloop : e.loop = .readLen ∨ ∃ n, e.loop = .readFrame n) :
      Stepped e .readError (e.finish .readFailed)
  | offer (p : Bytes) (hloop : e.loop = .offer p) (hroom : e.dataIn.length < tunnelDataQueueSize) :
      Stepped e .offer { e with dataIn := e.dataIn ++ [p], handed := e.handed ++ [p], loop := .head }
  | giveUp (p : Bytes) (hloop : e.loop = .offer p) (hctx : e.tunnel.cancelled = true) :
      Stepped e .giveUp (e.finish .cancelled)
  | recv (size : Option ℕ) (p : Bytes) (rest : List Bytes) (hqueue : e.dataIn = p :: rest) :
      Stepped e (.recv size) { e with dataIn := rest, removed := e.removed ++ [(.recv size, p)] }
  | cancel : Stepped e .cancel { e with tunnel := { e.tunnel with cancelled := true } }
  | drain (why : Ending) (p : Bytes) (rest : List Bytes) (hloop : e.loop = .ended why)
      (hqueue : e.dataIn = p :: rest) :
      Stepped e .drain { e with dataIn := rest, removed := e.removed ++ [(.drain, p)] }

variable {P} in
/-- **What a step can do.** -/
theorem stepped_of_step {e e' : TunnelEnd} {ev : TunnelEvent} (h : e.step P ev = some e') :
    Stepped P e ev e' := by
  cases ev with
  | write ptype payload r now ws =>
    obtain rfl := Option.some.inj h
    exact .write ptype payload r now ws
  | arrive bytes =>
    obtain rfl := Option.some.inj h
    exact .arrive bytes
  | round now =>
    obtain ⟨hloop, heq⟩ := Option.ite_none_right_eq_some.mp h
    obtain rfl := Option.some.inj heq
    exact .round now hloop
  | read buf =>
    simp only [step] at h
    split at h
    · rename_i hloop
      obtain ⟨hlen, heq⟩ := Option.ite_none_right_eq_some.mp h
      obtain rfl := Option.some.inj heq
      exact .readLen buf hloop hlen
    · rename_i n hloop
      obtain ⟨hlen, heq⟩ := Option.ite_none_right_eq_some.mp h
      obtain rfl := Option.some.inj heq
      exact .readFrame n buf hloop hlen
    · cases h
  | readError =>
    simp only [step] at h
    split at h
    · rename_i hloop
      obtain rfl := Option.some.inj h
      exact .readError (.inl hloop)
    · rename_i n hloop
      obtain rfl := Option.some.inj h
      exact .readError (.inr ⟨n, hloop⟩)
    · cases h
  | offer =>
    simp only [step] at h
    split at h
    · rename_i p hloop
      obtain ⟨hroom, heq⟩ := Option.ite_none_right_eq_some.mp h
      obtain rfl := Option.some.inj heq
      exact .offer p hloop hroom
    · cases h
  | giveUp =>
    simp only [step] at h
    split at h
    · rename_i p hloop
      obtain ⟨hctx, heq⟩ := Option.ite_none_right_eq_some.mp h
      obtain rfl := Option.some.inj heq
      exact .giveUp p hloop hctx
    · cases h
  | recv size =>
    simp only [step] at h
    split at h
    · cases h
    · rename_i p rest hqueue
      obtain rfl := Option.some.inj h
      exact .recv size p rest hqueue
  | cancel =>
    obtain rfl := Option.some.inj h
    exact .cancel
  | drain =>
    simp only [step] at h
    split at h
    · rename_i why p rest hloop hqueue
      obtain rfl := Option.some.inj h
      exact .drain why p rest hloop hqueue
    · cases h

end Steps

end TunnelEnd

/-! ## What an end frames -/

/-- One direction of a framer. -/
structure Half where
  cipher : Cipher Bytes
  headerKey : Option Bytes
  frameKey : Option Bytes
  frameCtr : ℕ

def StreamFramer.encHalf (f : StreamFramer) : Half :=
  ⟨f.encCipher, f.encHeaderKey, f.encFrameKey, f.encFrameCtr⟩

def StreamFramer.decHalf (f : StreamFramer) : Half :=
  ⟨f.decCipher, f.decHeaderKey, f.decFrameKey, f.decFrameCtr⟩

/-- The settings that both directions share. -/
def StreamFramer.settings (f : StreamFramer) : HeaderConfig × PaddingConfig :=
  (f.headerCfg, f.paddingCfg)

/-- The cipher `k` messages later. -/
def cipherAt (c : Cipher Bytes) (k : ℕ) : Cipher Bytes := { c with counter := c.counter + k }

/-- The half `k` frames later. -/
def Half.at (h : Half) (k : ℕ) : Half :=
  { h with cipher := cipherAt h.cipher k, frameCtr := h.frameCtr + k }

/-- The `k`-th frame after `h`: its length behind the mask of its counter, and a packet that decodes
under the nonce of its counter. -/
structure Framed.Genuine (P : Primitives) (hc : HeaderConfig) (h : Half) (k : ℕ) (s : Framed) :
    Prop where
  counter : s.counter = h.cipher.counter + k
  masked : s.frame = putBE 4 (maskFrameLen P h.frameKey (h.frameCtr + k)
    (s.frame.drop 4).length) ++ s.frame.drop 4
  length_le : (s.frame.drop 4).length ≤ maxFrameSize
  decodes : Decodes P (cipherAt h.cipher k) h.headerKey hc (s.frame.drop 4) s.packet

/-- Everything an end has framed since its framer was `f`. -/
structure Sends (P : Primitives) (f : StreamFramer) (e : TunnelEnd) : Prop where
  half : e.tunnel.framer.encHalf = f.encHalf.at e.framed.length
  settings : e.tunnel.framer.settings = f.settings
  genuine : ∀ (k : ℕ) (s : Framed), e.framed[k]? = some s → s.Genuine P f.headerCfg f.encHalf k
  frames : (framesOf e.attempts).map Prod.snd = e.framed.map Framed.frame
  sound : ∀ a ∈ e.attempts, a.Sound

variable {P : Primitives}

/-- **A call of `writePacket` on the framer.** Either it frames nothing and leaves the framer as it
is, or it hands over the next frame. -/
theorem attempt_framer (hP : P.AEADLawful) (t : Tunnel) (hhc : t.framer.headerCfg.Decodable)
    (hpad : t.framer.paddingCfg.NonNegative) (ptype : PacketType) (payload : Bytes) (r : Draws)
    (now : ℤ) (ws : List WriteResult) :
    ((t.attempt P ptype payload r now ws).1.frame = none ∧
      (t.attempt P ptype payload r now ws).2.framer = t.framer) ∨
    ∃ pkt, (t.attempt P ptype payload r now ws).1.frame = some (t.framer.encFrameCtr,
        putBE 4 (maskFrameLen P t.framer.encFrameKey t.framer.encFrameCtr pkt.length) ++ pkt) ∧
      (t.attempt P ptype payload r now ws).2.framer = t.framer.afterFrame ∧
      pkt.length ≤ maxFrameSize ∧
      Decodes P t.framer.encCipher t.framer.encHeaderKey t.framer.headerCfg pkt ⟨ptype, payload⟩ := by
  have hcall := Call.run_cases hP t.framer hhc hpad
    (.withBuffer (writeBufLen payload) ptype payload r)
  unfold Tunnel.attempt
  dsimp only
  by_cases hexp : t.count.sessionExpired t.count.packetCount now = true
  · rw [if_pos hexp]
    exact .inl ⟨rfl, rfl⟩
  rw [if_neg hexp, show t.count.framer = t.framer from rfl]
  split at hcall
  · obtain ⟨pkt, hrun, hlen, hdec⟩ := hcall
    rw [Call.run] at hrun
    rw [hrun]
    dsimp only
    refine .inr ⟨pkt, ?_⟩
    rcases writeFrameLocked ws _ with ⟨put, _ | err⟩
    · exact ⟨rfl, rfl, hlen, hdec⟩
    · exact ⟨rfl, rfl, hlen, hdec⟩
  · obtain ⟨err, hrun⟩ := hcall
    rw [Call.run] at hrun
    rw [hrun]
    exact .inl ⟨rfl, rfl⟩

/-- The sending half and its histories are left alone. -/
structure SendsAlike (e e' : TunnelEnd) : Prop where
  half : e'.tunnel.framer.encHalf = e.tunnel.framer.encHalf
  settings : e'.tunnel.framer.settings = e.tunnel.framer.settings
  framed : e'.framed = e.framed
  attempts : e'.attempts = e.attempts

theorem Sends.alike {f : StreamFramer} {e e' : TunnelEnd} (h : Sends P f e) (ha : SendsAlike e e') :
    Sends P f e' := by
  refine ⟨?_, ha.settings.trans h.settings, ?_, ?_, ?_⟩
  · rw [ha.half, ha.framed, h.half]
  · rw [ha.framed]
    exact h.genuine
  · rw [ha.attempts, ha.framed]
    exact h.frames
  · rw [ha.attempts]
    exact h.sound

theorem parseFrameInto_enc (f : StreamFramer) (dst raw : Bytes) :
    (f.parseFrameInto P dst raw).2.encHalf = f.encHalf ∧
      (f.parseFrameInto P dst raw).2.settings = f.settings := by
  unfold StreamFramer.parseFrameInto
  split
  · exact ⟨rfl, rfl⟩
  · dsimp only
    split
    · exact ⟨rfl, rfl⟩
    · exact ⟨rfl, rfl⟩

theorem dispatch_alike (e : TunnelEnd) (p : Packet) : SendsAlike e (e.dispatch p) := by
  unfold TunnelEnd.dispatch
  cases p.type <;> exact ⟨rfl, rfl, rfl, rfl⟩

theorem readFrame_alike (e : TunnelEnd) (n : ℕ) (buf : ℕ → UInt8) :
    SendsAlike e (e.readFrame P n buf) := by
  obtain ⟨hhalf, hset⟩ := parseFrameInto_enc (P := P) e.tunnel.framer (fill n buf) (e.inbox.take n)
  unfold TunnelEnd.readFrame
  dsimp only
  split
  · exact ⟨hhalf, hset, rfl, rfl⟩
  · obtain ⟨h₁, h₂, h₃, h₄⟩ := dispatch_alike { e with
      tunnel := { e.tunnel with
        framer := (e.tunnel.framer.parseFrameInto P (fill n buf) (e.inbox.take n)).2 }
      inbox := e.inbox.drop n } ⟨_, _⟩
    exact ⟨h₁.trans hhalf, h₂.trans hset, h₃, h₄⟩


theorem recvRound_framer (t : Tunnel) (now : ℤ) : (t.recvRound now).framer = t.framer := by
  unfold Tunnel.recvRound
  dsimp only
  split <;> rfl

theorem readLen_alike (e : TunnelEnd) : SendsAlike e (e.readLen P) := by
  unfold TunnelEnd.readLen
  dsimp only
  split <;> exact ⟨rfl, rfl, rfl, rfl⟩

/-- A call of `writePacket` keeps the record of what has been framed. -/
theorem Sends.write (hP : P.AEADLawful) {f : StreamFramer} (hhc : f.headerCfg.Decodable)
    (hpad : f.paddingCfg.NonNegative) {e : TunnelEnd} (h : Sends P f e) (ptype : PacketType)
    (payload : Bytes) (r : Draws) (now : ℤ) (ws : List WriteResult) :
    Sends P f (e.write P ptype payload r now ws) := by
  have hcfg : e.tunnel.framer.headerCfg = f.headerCfg := congrArg Prod.fst h.settings
  have hpads : e.tunnel.framer.paddingCfg = f.paddingCfg := congrArg Prod.snd h.settings
  have hsound : ∀ a ∈ e.attempts ++ [(e.tunnel.attempt P ptype payload r now ws).1], a.Sound := by
    intro a ha
    rcases List.mem_append.mp ha with ha | ha
    · exact h.sound a ha
    · exact List.mem_singleton.mp ha ▸ attempt_sound (P := P) e.tunnel ptype payload r now ws
  rcases attempt_framer hP e.tunnel (hcfg ▸ hhc) (hpads ▸ hpad) ptype payload r now ws with
    ⟨hnone, hframer⟩ | ⟨pkt, hsome, hframer, hlen, hdec⟩
  · have hby : (e.write P ptype payload r now ws).framed = e.framed := by
      simp [TunnelEnd.write, TunnelEnd.framedBy, hnone]
    refine ⟨?_, (congrArg StreamFramer.settings hframer).trans h.settings, ?_, ?_, hsound⟩
    · rw [hby, ← h.half]
      exact congrArg StreamFramer.encHalf hframer
    · rw [hby]
      exact h.genuine
    · rw [hby, ← h.frames]
      simp [TunnelEnd.write, framesOf, hnone]
  · -- the frame is the next one of the half
    obtain ⟨hcipher, hkey, hfkey, hctr⟩ : e.tunnel.framer.encCipher =
        cipherAt f.encCipher e.framed.length ∧ e.tunnel.framer.encHeaderKey = f.encHeaderKey ∧
        e.tunnel.framer.encFrameKey = f.encFrameKey ∧
        e.tunnel.framer.encFrameCtr = f.encFrameCtr + e.framed.length := by
      simpa [StreamFramer.encHalf, Half.at] using h.half
    set s : Framed := ⟨e.tunnel.framer.encCipher.counter, ⟨ptype, payload⟩,
      putBE 4 (maskFrameLen P e.tunnel.framer.encFrameKey e.tunnel.framer.encFrameCtr pkt.length) ++
        pkt⟩ with hs
    have hby : (e.write P ptype payload r now ws).framed = e.framed ++ [s] := by
      simp [TunnelEnd.write, TunnelEnd.framedBy, hsome, hs]
    have hpkt : s.frame.drop 4 = pkt := by
      rw [hs, List.drop_left' (length_putBE 4 _)]
    refine ⟨?_, (congrArg StreamFramer.settings hframer).trans h.settings, ?_, ?_, hsound⟩
    · rw [hby, List.length_append]
      refine (congrArg StreamFramer.encHalf hframer).trans ?_
      simp only [StreamFramer.afterFrame, StreamFramer.encHalf, Half.at, hcipher, hkey, hfkey, hctr]
      rfl
    · rw [hby]
      intro k s' hk
      rw [List.getElem?_append] at hk
      split at hk
      · exact h.genuine k s' hk
      · rename_i hge
        obtain ⟨hk0, rfl⟩ : k - e.framed.length = 0 ∧ s = s' := by
          simpa [List.getElem?_singleton] using hk
        obtain rfl : k = e.framed.length := by omega
        refine ⟨by rw [hs, hcipher]; rfl, ?_, hpkt ▸ hlen, ?_⟩
        · rw [hpkt, hs, hfkey, hctr]
          rfl
        · rw [hpkt]
          rw [hcipher, hkey, hcfg] at hdec
          exact hdec
    · rw [hby, List.map_append, ← h.frames]
      simp [TunnelEnd.write, framesOf, hsome, hs]

/-- **Every step keeps the record of what an end has framed.** -/
theorem Sends.step (hP : P.AEADLawful) {f : StreamFramer} (hhc : f.headerCfg.Decodable)
    (hpad : f.paddingCfg.NonNegative) {e e' : TunnelEnd} {ev : TunnelEvent} (h : Sends P f e)
    (hstep : e.step P ev = some e') : Sends P f e' := by
  cases TunnelEnd.stepped_of_step hstep with
  | write ptype payload r now ws => exact h.write hP hhc hpad ptype payload r now ws
  | round now hloop =>
    have hframer := recvRound_framer e.tunnel now
    exact h.alike ⟨congrArg StreamFramer.encHalf hframer, congrArg StreamFramer.settings hframer,
      rfl, rfl⟩
  | readLen buf hloop hlen => exact h.alike (readLen_alike e)
  | readFrame n buf hloop hlen => exact h.alike (readFrame_alike e n buf)
  | arrive | readError | offer | giveUp | recv | cancel | drain =>
    exact h.alike ⟨rfl, rfl, rfl, rfl⟩

/-! ## What an end parses -/

def RecvLoop.Running : RecvLoop → Prop
  | .ended _ => False
  | _ => True

/-- The payload that the loop holds at the channel. -/
def RecvLoop.pending : RecvLoop → List Bytes
  | .offer p => [p]
  | _ => []

/-- The number of lengths read of the current frame. -/
def RecvLoop.lensRead : RecvLoop → ℕ
  | .readFrame _ => 1
  | _ => 0

/-- The payloads of the DATA packets. -/
def dataOf (ps : List Packet) : List Bytes :=
  (ps.filter fun p => decide (p.type = .data)).map Packet.payload

@[simp] theorem dataOf_append (ps qs : List Packet) : dataOf (ps ++ qs) = dataOf ps ++ dataOf qs := by
  simp [dataOf]

theorem dataOf_isPrefix {ps qs : List Packet} (h : ps <+: qs) : dataOf ps <+: dataOf qs :=
  (h.filter _).map _

/-- What an end has done with the packets it has parsed since its framer was `g`. -/
structure Receives (g : StreamFramer) (e : TunnelEnd) : Prop where
  half : e.loop.Running → e.tunnel.framer.decHalf = { g.decHalf.at e.parsed.length with
    frameCtr := g.decFrameCtr + e.parsed.length + e.loop.lensRead }
  headerCfg : e.tunnel.framer.headerCfg = g.headerCfg
  handed : e.handed ++ e.loop.pending <+: dataOf e.parsed
  handed_eq : e.loop.Running → e.handed ++ e.loop.pending = dataOf e.parsed
  removed : e.removed.map Prod.snd ++ e.dataIn = e.handed
  undrained : e.loop.Running → ∀ x ∈ e.removed, x.1 ≠ .drain

theorem attempt_dec (t : Tunnel) (ptype : PacketType) (payload : Bytes) (r : Draws) (now : ℤ)
    (ws : List WriteResult) :
    (t.attempt P ptype payload r now ws).2.framer.decHalf = t.framer.decHalf ∧
      (t.attempt P ptype payload r now ws).2.framer.headerCfg = t.framer.headerCfg := by
  have hframe : (t.framer.frameWithBuffer P (writeBufLen payload) ptype payload r).2.decHalf =
      t.framer.decHalf ∧
      (t.framer.frameWithBuffer P (writeBufLen payload) ptype payload r).2.headerCfg =
        t.framer.headerCfg := by
    simp only [StreamFramer.frameWithBuffer]
    split
    · exact ⟨rfl, rfl⟩
    · unfold StreamFramer.finishFrame
      split <;> exact ⟨rfl, rfl⟩
  obtain ⟨connErr, heq⟩ := attempt_writePacket (P := P) t ptype payload r now ws
  rw [heq, writePacket_framer]
  split
  · exact ⟨rfl, rfl⟩
  · exact hframe

/-- A parsed packet uses up one nonce. -/
theorem parseFrameInto_dec {f : StreamFramer} {dst raw : Bytes} {x : PacketType × ℕ × Bytes}
    (h : (f.parseFrameInto P dst raw).1 = .ok x) :
    (f.parseFrameInto P dst raw).2 = { f with decCipher := f.decCipher.next } := by
  unfold StreamFramer.parseFrameInto at h ⊢
  cases hread : readHeader P f.decHeaderKey f.headerCfg raw with
  | error err => simp [hread] at h
  | ok head =>
    simp only [hread] at h ⊢
    split at h
    · cases h
    · rfl

theorem Receives.finish {g : StreamFramer} {e : TunnelEnd} (h : Receives g e) (why : Ending) :
    Receives g (e.finish why) where
  half := False.elim
  headerCfg := h.headerCfg
  handed := by
    refine List.IsPrefix.trans ?_ h.handed
    simp [TunnelEnd.finish, RecvLoop.pending]
  handed_eq := False.elim
  removed := h.removed
  undrained := False.elim

theorem Receives.round {g : StreamFramer} {e : TunnelEnd} (h : Receives g e) (hloop : e.loop = .head)
    (now : ℤ) : Receives g (e.round now) := by
  have hframer := recvRound_framer e.tunnel now
  have hpending : (e.round now).loop.pending = e.loop.pending := by
    unfold TunnelEnd.round
    rw [hloop]
    dsimp only
    split <;> rfl
  have hrun : e.loop.Running := by simp [hloop, RecvLoop.Running]
  refine ⟨fun _ => ?_, (congrArg StreamFramer.headerCfg hframer).trans h.headerCfg, ?_, fun _ => ?_,
    h.removed, fun _ => h.undrained hrun⟩
  · refine (congrArg StreamFramer.decHalf hframer).trans ((h.half hrun).trans ?_)
    have hlens : (e.round now).loop.lensRead = e.loop.lensRead := by
      unfold TunnelEnd.round
      rw [hloop]
      dsimp only
      split <;> rfl
    rw [hlens]
    rfl
  · rw [hpending]
    exact h.handed
  · rw [hpending]
    exact h.handed_eq hrun

theorem Receives.readLen {g : StreamFramer} {e : TunnelEnd} (h : Receives g e)
    (hloop : e.loop = .readLen) : Receives g (e.readLen P) := by
  have hrun : e.loop.Running := by simp [hloop, RecvLoop.Running]
  have hhanded : e.handed = dataOf e.parsed := by
    simpa [hloop, RecvLoop.pending] using h.handed_eq hrun
  have hhalf := h.half hrun
  unfold TunnelEnd.readLen
  dsimp only
  split
  · refine ⟨False.elim, h.headerCfg, ?_, False.elim, h.removed, False.elim⟩
    simp [TunnelEnd.finish, RecvLoop.pending, hhanded]
  · refine ⟨fun _ => ?_, h.headerCfg, ?_, fun _ => ?_, h.removed, fun _ => h.undrained hrun⟩
    · simp only [StreamFramer.decHalf, hloop, RecvLoop.lensRead, Half.at, Half.mk.injEq] at hhalf
      obtain ⟨hc, hk, hf, hctr⟩ := hhalf
      simp only [StreamFramer.decodeFrameLen, StreamFramer.decHalf, RecvLoop.lensRead, Half.at, hc,
        hk, hf, hctr]
    · simp [RecvLoop.pending, hhanded]
    · simp [RecvLoop.pending, hhanded]

/-- One packet more, with its nonce and its frame counter. -/
theorem Receives.dispatch {g : StreamFramer} {e : TunnelEnd}
    (hhalf : e.tunnel.framer.decHalf = g.decHalf.at (e.parsed.length + 1))
    (hcfg : e.tunnel.framer.headerCfg = g.headerCfg) (hhanded : e.handed = dataOf e.parsed)
    (hremoved : e.removed.map Prod.snd ++ e.dataIn = e.handed)
    (hundrained : ∀ x ∈ e.removed, x.1 ≠ .drain) (p : Packet) : Receives g (e.dispatch p) := by
  have hparsed : (e.parsed ++ [p]).length = e.parsed.length + 1 := by simp
  have hdata : dataOf (e.parsed ++ [p]) = e.handed ++ dataOf [p] := by rw [dataOf_append, hhanded]
  have hlast : dataOf [p] = if p.type = .data then [p.payload] else [] := by
    by_cases hd : p.type = .data <;> simp [dataOf, hd]
  unfold TunnelEnd.dispatch
  cases hp : p.type with
  | data =>
    have heq : e.handed ++ [p.payload] = dataOf (e.parsed ++ [p]) := by simp [hdata, hlast, hp]
    exact ⟨fun _ => by rw [hparsed]; exact hhalf, hcfg, heq ▸ List.prefix_rfl, fun _ => heq,
      hremoved, fun _ => hundrained⟩
  | close =>
    refine ⟨False.elim, hcfg, ?_, False.elim, hremoved, False.elim⟩
    rw [show ∀ e : TunnelEnd, (e.finish .closePacket).parsed = e.parsed from fun _ => rfl, hdata]
    simp [TunnelEnd.finish, RecvLoop.pending]
  | keepalive | noise | handshake =>
    have heq : e.handed ++ [] = dataOf (e.parsed ++ [p]) := by simp [hdata, hlast, hp]
    exact ⟨fun _ => by rw [hparsed]; exact hhalf, hcfg, heq ▸ List.prefix_rfl, fun _ => heq,
      hremoved, fun _ => hundrained⟩

theorem Receives.readFrame {g : StreamFramer} {e : TunnelEnd} (h : Receives g e) {n : ℕ}
    (hloop : e.loop = .readFrame n) (buf : ℕ → UInt8) : Receives g (e.readFrame P n buf) := by
  have hrun : e.loop.Running := by simp [hloop, RecvLoop.Running]
  have hhanded : e.handed = dataOf e.parsed := by
    simpa [hloop, RecvLoop.pending] using h.handed_eq hrun
  have hhalf := h.half hrun
  simp only [StreamFramer.decHalf, hloop, RecvLoop.lensRead, Half.at, Half.mk.injEq] at hhalf
  obtain ⟨hc, hk, hf, hctr⟩ := hhalf
  have hcfg : (e.tunnel.framer.parseFrameInto P (fill n buf) (e.inbox.take n)).2.headerCfg =
      g.headerCfg :=
    (congrArg Prod.fst (parseFrameInto_enc (P := P) _ _ _).2).trans h.headerCfg
  unfold TunnelEnd.readFrame
  dsimp only
  split
  · refine ⟨False.elim, hcfg, ?_, False.elim, h.removed, False.elim⟩
    simp [TunnelEnd.finish, RecvLoop.pending, hhanded]
  · rename_i ptype payLen dst hok
    rw [parseFrameInto_dec hok] at hcfg ⊢
    refine Receives.dispatch (e := { e with tunnel := { e.tunnel with framer := _ }, inbox := _ }) ?_
      hcfg hhanded h.removed (h.undrained hrun) _
    simp only [StreamFramer.decHalf, Half.at, hc, hk, hf, hctr]
    rfl

/-- **Every step keeps the record of what an end has parsed**, whatever bytes have arrived. -/
theorem Receives.step {g : StreamFramer} {e e' : TunnelEnd} {ev : TunnelEvent} (h : Receives g e)
    (hstep : e.step P ev = some e') : Receives g e' := by
  cases TunnelEnd.stepped_of_step hstep with
  | write ptype payload r now ws =>
    obtain ⟨hdec, hcfg⟩ := attempt_dec (P := P) e.tunnel ptype payload r now ws
    exact ⟨fun hr => hdec.trans (h.half hr), hcfg.trans h.headerCfg, h.handed, h.handed_eq,
      h.removed, h.undrained⟩
  | round now hloop => exact h.round hloop now
  | readLen buf hloop hlen => exact h.readLen hloop
  | readFrame n buf hloop hlen => exact h.readFrame hloop buf
  | readError hloop => exact h.finish .readFailed
  | giveUp p hloop hctx => exact h.finish .cancelled
  | offer p hloop hroom =>
    have hrun : e.loop.Running := by simp [hloop, RecvLoop.Running]
    have heq : e.handed ++ [p] = dataOf e.parsed := by
      simpa [hloop, RecvLoop.pending] using h.handed_eq hrun
    have hhalf := h.half hrun
    rw [hloop] at hhalf
    have hremoved : e.removed.map Prod.snd ++ (e.dataIn ++ [p]) = e.handed ++ [p] := by
      rw [← List.append_assoc, h.removed]
    refine ⟨fun _ => hhalf, h.headerCfg, ?_, fun _ => ?_, hremoved, fun _ => h.undrained hrun⟩
    · simp [RecvLoop.pending, heq]
    · simp [RecvLoop.pending, heq]
  | recv size p rest hqueue =>
    refine ⟨h.half, h.headerCfg, h.handed, h.handed_eq, ?_, fun hr x hx => ?_⟩
    · rw [← h.removed, hqueue]
      simp
    · rcases List.mem_append.mp hx with hx | hx
      · exact h.undrained hr x hx
      · simp [List.mem_singleton.mp hx]
  | drain why p rest hloop hqueue =>
    refine ⟨h.half, h.headerCfg, h.handed, h.handed_eq, ?_, ?_⟩
    · rw [← h.removed, hqueue]
      simp
    · simp [hloop, RecvLoop.Running]
  | arrive | cancel =>
    exact ⟨h.half, h.headerCfg, h.handed, h.handed_eq, h.removed, h.undrained⟩

/-! ## Two ends -/

inductive Side where
  | left
  | right
  deriving DecidableEq, Repr

def Side.other : Side → Side
  | .left => .right
  | .right => .left

theorem Side.other_ne (s : Side) : s.other ≠ s := by cases s <;> decide

/-- The two ends of a connection. -/
abbrev TunnelLink : Type := Side → TunnelEnd

namespace TunnelLink

def start (t : Side → Tunnel) : TunnelLink := fun s => .init (t s)

/-- Something happens at one of the two ends. -/
def step (P : Primitives) (l : TunnelLink) (ev : Side × TunnelEvent) : Option TunnelLink :=
  ((l ev.1).step P ev.2).map (Function.update l ev.1)

/-- A step at either end, seen from one of them. -/
theorem step_cases {l l' : TunnelLink} {ev : Side × TunnelEvent} (h : step P l ev = some l')
    (s : Side) :
    (ev.1 = s ∧ (l s).step P ev.2 = some (l' s) ∧ l' s.other = l s.other) ∨
    (ev.1 = s.other ∧ (l s.other).step P ev.2 = some (l' s.other) ∧ l' s = l s) := by
  obtain ⟨t, ev⟩ := ev
  obtain ⟨e, hstep, rfl⟩ := Option.map_eq_some_iff.mp h
  by_cases hts : t = s
  · subst hts
    refine .inl ⟨rfl, ?_, Function.update_of_ne (Side.other_ne t) _ _⟩
    rw [Function.update_self]
    exact hstep
  · obtain rfl : t = s.other := by cases t <;> cases s <;> simp_all [Side.other]
    refine .inr ⟨rfl, ?_, Function.update_of_ne (Ne.symm hts) _ _⟩
    rw [Function.update_self]
    exact hstep

end TunnelLink

/-- The ciphertext that opens in this step, if one does, is the one the other end has sealed under
this nonce, with the same header. -/
def Unforged (P : Primitives) (peer e : TunnelEnd) : TunnelEvent → Prop
  | .read _ => ∀ n head, e.loop = .readFrame n → n ≤ e.inbox.length →
      readHeader P e.tunnel.framer.decHeaderKey e.tunnel.framer.headerCfg (e.inbox.take n) =
        .ok head →
      (e.tunnel.framer.decCipher.decrypt P.suite head.ct head.aad).1 ≠ none →
      ∃ s ∈ peer.framed, s.counter = e.tunnel.framer.decCipher.counter ∧
        ∃ own, readHeader P peer.tunnel.framer.encHeaderKey peer.tunnel.framer.headerCfg
          (s.frame.drop 4) = .ok own ∧ own.ct = head.ct ∧ own.aad = head.aad
  | _ => True

/-- A frame of the other end that has come through unchanged is not forged. -/
theorem unforged_of_frame {peer e : TunnelEnd} {s : Framed} {n : ℕ} (hloop : e.loop = .readFrame n)
    (hs : s ∈ peer.framed) (hctr : s.counter = e.tunnel.framer.decCipher.counter)
    (hkey : peer.tunnel.framer.encHeaderKey = e.tunnel.framer.decHeaderKey)
    (hcfg : peer.tunnel.framer.headerCfg = e.tunnel.framer.headerCfg)
    (hbytes : s.frame.drop 4 = e.inbox.take n) (buf : ℕ → UInt8) : Unforged P peer e (.read buf) := by
  intro n' head hloop' _ hread _
  obtain rfl : n = n' := by simpa [hloop] using hloop'
  refine ⟨s, hs, hctr, head, ?_, rfl, rfl⟩
  rw [hkey, hcfg, hbytes]
  exact hread

/-- What the receiver reads besides the ciphertext is in the authenticated header. -/
theorem readHeader_ok {headerKey : Option Bytes} {hc : HeaderConfig} {data : Bytes}
    {head : PacketHead} (h : readHeader P headerKey hc data = .ok head) :
    packetHeaderSize + head.ct.length = data.length ∧
    hc.typeIDToPacketType (UInt32.ofNat (getBE (slice head.aad 0 4))) = .ok head.type ∧
    head.payLen = getBE (slice head.aad 4 2) ∧ head.padLen = getBE (slice head.aad 6 1) := by
  unfold readHeader at h
  split at h
  · cases h
  rename_i hlong
  cases hmask : xorPacketHeader P (data.take packetHeaderSize) headerKey
      (data.drop packetHeaderSize) with
  | error err => simp [hmask] at h
  | ok aad =>
    simp only [hmask] at h
    split at h
    · cases h
    · split at h
      · cases h
      · rename_i ptype htype
        split at h
        · cases h
        · obtain rfl := Except.ok.inj h
          refine ⟨?_, htype, rfl, rfl⟩
          rw [List.length_drop]
          omega

theorem readHeader_congr {headerKey headerKey' : Option Bytes} {hc : HeaderConfig}
    {data data' : Bytes} {head head' : PacketHead} (h : readHeader P headerKey hc data = .ok head)
    (h' : readHeader P headerKey' hc data' = .ok head') (hct : head'.ct = head.ct)
    (haad : head'.aad = head.aad) : head' = head := by
  obtain ⟨-, htype, hpay, hpad⟩ := readHeader_ok h
  obtain ⟨-, htype', hpay', hpad'⟩ := readHeader_ok h'
  rw [haad] at htype' hpay' hpad'
  have ht : head'.type = head.type := Except.ok.inj (htype'.symm.trans htype)
  cases head
  cases head'
  simp_all

/-- A packet with the header and the ciphertext of one that decodes is that packet. -/
theorem Decodes.of_head {c : Cipher Bytes} {headerKey : Option Bytes} {hc : HeaderConfig}
    {pkt raw : Bytes} {p : Packet} {own head : PacketHead} (h : Decodes P c headerKey hc pkt p)
    (hown : readHeader P headerKey hc pkt = .ok own) (hhead : readHeader P headerKey hc raw = .ok head)
    (hct : own.ct = head.ct) (haad : own.aad = head.aad) : Decodes P c headerKey hc raw p := by
  obtain ⟨head', padding, hread, hopen, htype, hpay, hpad, -⟩ := h
  obtain rfl : head' = own := Except.ok.inj (hread.symm.trans hown)
  obtain rfl : head' = head := readHeader_congr hhead hread hct haad
  refine ⟨head', padding, hhead, hopen, htype, hpay, hpad, ?_⟩
  have hlen := (readHeader_ok hhead).1
  have hct' := readHeader_length hhead
  omega

/-- A frame that opens has a header. -/
theorem parseFrameInto_head {f : StreamFramer} {dst raw : Bytes} {x : PacketType × ℕ × Bytes}
    (h : (f.parseFrameInto P dst raw).1 = .ok x) :
    ∃ head, readHeader P f.decHeaderKey f.headerCfg raw = .ok head ∧
      (f.decCipher.decrypt P.suite head.ct head.aad).1 ≠ none := by
  unfold StreamFramer.parseFrameInto at h
  cases hread : readHeader P f.decHeaderKey f.headerCfg raw with
  | error err => simp [hread] at h
  | ok head =>
    refine ⟨head, rfl, fun hopen => ?_⟩
    simp only [hread, hopen] at h
    cases h

@[simp] theorem dispatch_parsed (e : TunnelEnd) (p : Packet) :
    (e.dispatch p).parsed = e.parsed ++ [p] := by
  unfold TunnelEnd.dispatch
  cases p.type <;> rfl

/-- A packet that decodes is dispatched. -/
theorem readFrame_of_decodes {e : TunnelEnd} {n : ℕ} (hlen : n ≤ e.inbox.length) {p : Packet}
    (hdec : Decodes P e.tunnel.framer.decCipher e.tunnel.framer.decHeaderKey
      e.tunnel.framer.headerCfg (e.inbox.take n) p) (buf : ℕ → UInt8) :
    e.readFrame P n buf = { e with
      tunnel := { e.tunnel with
        framer := { e.tunnel.framer with decCipher := e.tunnel.framer.decCipher.next } }
      inbox := e.inbox.drop n }.dispatch p := by
  obtain ⟨dst, hparse, htake⟩ := hdec.parseFrameInto
    (show (fill n buf).length = (e.inbox.take n).length by simp [hlen])
  simp only [TunnelEnd.readFrame, hparse, htake]

/-- A list that agrees with an initial part of another, and its next element. -/
theorem concat_isPrefix {α : Type*} {l m : List α} {a : α} (h : l <+: m)
    (ha : m[l.length]? = some a) : l ++ [a] <+: m := by
  obtain ⟨rest, rfl⟩ := h
  cases rest with
  | nil => simp at ha
  | cons b rest =>
    obtain rfl : b = a := by simpa using ha
    exact ⟨rest, by simp⟩

/-- **The next frame that opens is the next one the other end has framed.** -/
theorem readFrame_parsed {f g : StreamFramer} (hm : Matches f g) {a b : TunnelEnd}
    (ha : Sends P f a) (hb : Receives g b) (hparsed : b.parsed <+: a.framed.map Framed.packet) {n : ℕ}
    (hloop : b.loop = .readFrame n) (hlen : n ≤ b.inbox.length) {buf : ℕ → UInt8}
    (hunf : Unforged P a b (.read buf)) :
    (b.readFrame P n buf).parsed <+: a.framed.map Framed.packet := by
  have hhalf := hb.half (by simp [hloop, RecvLoop.Running])
  simp only [StreamFramer.decHalf, Half.at, Half.mk.injEq] at hhalf
  obtain ⟨hcipher, hkey, -, -⟩ := hhalf
  have hakey : a.tunnel.framer.encHeaderKey = f.encHeaderKey := congrArg Half.headerKey ha.half
  have hacfg : a.tunnel.framer.headerCfg = f.headerCfg := congrArg Prod.fst ha.settings
  cases hok : (b.tunnel.framer.parseFrameInto P (fill n buf) (b.inbox.take n)).1 with
  | error err =>
    simp only [TunnelEnd.readFrame, hok]
    exact hparsed
  | ok x =>
    obtain ⟨head, hread, hopen⟩ := parseFrameInto_head hok
    obtain ⟨s, hs, hctr, own, hown, hct, haad⟩ := hunf n head hloop hlen hread hopen
    obtain ⟨k, hk⟩ := List.mem_iff_getElem?.mp hs
    have hgen := ha.genuine k s hk
    -- the counters of the two ends say which frame this is
    obtain rfl : k = b.parsed.length := by
      have h₁ := hgen.counter
      rw [hctr, hcipher, hm.cipher] at h₁
      simpa [cipherAt, StreamFramer.encHalf] using h₁.symm
    have hdec : Decodes P b.tunnel.framer.decCipher b.tunnel.framer.decHeaderKey
        b.tunnel.framer.headerCfg (b.inbox.take n) s.packet := by
      rw [hcipher, hm.cipher, hkey, hm.headerKey, hb.headerCfg, hm.headerCfg]
      rw [hkey, hm.headerKey, hb.headerCfg, hm.headerCfg] at hread
      rw [hakey, hacfg] at hown
      exact hgen.decodes.of_head hown hread hct haad
    rw [readFrame_of_decodes hlen hdec, dispatch_parsed]
    exact concat_isPrefix hparsed (by simp [hk])

/-- Frames are only added. -/
theorem framed_isPrefix {e e' : TunnelEnd} {ev : TunnelEvent} (h : e.step P ev = some e') :
    e.framed <+: e'.framed := by
  cases TunnelEnd.stepped_of_step h with
  | write ptype payload r now ws => exact List.prefix_append _ _
  | readLen buf hloop hlen => exact (readLen_alike e).framed ▸ List.prefix_rfl
  | readFrame n buf hloop hlen => exact (readFrame_alike e n buf).framed ▸ List.prefix_rfl
  | arrive | round | readError | offer | giveUp | recv | cancel | drain => exact List.prefix_rfl

@[simp] theorem readLen_parsed (e : TunnelEnd) : (e.readLen P).parsed = e.parsed := by
  unfold TunnelEnd.readLen
  dsimp only
  split <;> rfl

@[simp] theorem readLen_removed (e : TunnelEnd) : (e.readLen P).removed = e.removed := by
  unfold TunnelEnd.readLen
  dsimp only
  split <;> rfl

@[simp] theorem readFrame_removed (e : TunnelEnd) (n : ℕ) (buf : ℕ → UInt8) :
    (e.readFrame P n buf).removed = e.removed := by
  have hdispatch : ∀ (e : TunnelEnd) (p : Packet), (e.dispatch p).removed = e.removed := by
    intro e p
    unfold TunnelEnd.dispatch
    cases p.type <;> rfl
  unfold TunnelEnd.readFrame
  dsimp only
  split
  · rfl
  · exact hdispatch _ _

/-- One end has parsed what the other end has framed. -/
structure Loyal (P : Primitives) (f g : StreamFramer) (a b : TunnelEnd) : Prop where
  sends : Sends P f a
  receives : Receives g b
  parsed : b.parsed <+: a.framed.map Framed.packet

/-- What leaves the channel has been framed. -/
theorem Loyal.removed {f g : StreamFramer} {a b : TunnelEnd} (h : Loyal P f g a b) :
    b.removed.map Prod.snd <+: dataOf (a.framed.map Framed.packet) :=
  calc b.removed.map Prod.snd
      <+: b.removed.map Prod.snd ++ b.dataIn := List.prefix_append _ _
    _ = b.handed := h.receives.removed
    _ <+: b.handed ++ b.loop.pending := List.prefix_append _ _
    _ <+: dataOf b.parsed := h.receives.handed
    _ <+: dataOf (a.framed.map Framed.packet) := dataOf_isPrefix h.parsed

/-- The consumer takes what the drain leaves. -/
theorem takenOf_sublist (removed : List (Taker × Bytes)) :
    ((takenOf removed).map Prod.snd).Sublist (removed.map Prod.snd) := by
  induction removed with
  | nil => exact List.Sublist.refl []
  | cons x removed ih =>
    obtain ⟨taker, p⟩ := x
    cases taker with
    | recv size => exact ih.cons_cons p
    | drain => exact ih.cons p

theorem takenOf_undrained {removed : List (Taker × Bytes)} (h : ∀ x ∈ removed, x.1 ≠ .drain) :
    (takenOf removed).map Prod.snd = removed.map Prod.snd := by
  induction removed with
  | nil => rfl
  | cons x removed ih =>
    obtain ⟨taker, p⟩ := x
    cases taker with
    | recv size => exact congrArg (p :: ·) (ih fun x hx => h x (List.mem_cons_of_mem _ hx))
    | drain => exact absurd rfl (h (.drain, p) List.mem_cons_self)

/-- A call returns the packet that it takes, or nothing. -/
theorem recvResult_toOption (size : Option ℕ) (p : Bytes) :
    (recvResult (size, p)).toOption = some p ∨ (recvResult (size, p)).toOption = none := by
  cases size with
  | none => exact .inl rfl
  | some size =>
    simp only [recvResult]
    split
    · exact .inr rfl
    · exact .inl rfl

theorem returned_sublist (e : TunnelEnd) : e.returned.Sublist (e.taken.map Prod.snd) := by
  unfold TunnelEnd.returned
  induction e.taken with
  | nil => exact List.Sublist.refl []
  | cons x taken ih =>
    obtain ⟨size, p⟩ := x
    rcases recvResult_toOption size p with hok | hshort
    · simp only [List.filterMap_cons, hok]
      exact ih.cons_cons p
    · simp only [List.filterMap_cons, hshort]
      exact ih.cons p

/-- The consumer gets what has been framed. -/
theorem Loyal.returned {f g : StreamFramer} {a b : TunnelEnd} (h : Loyal P f g a b) :
    b.returned.Sublist (dataOf (a.framed.map Framed.packet)) :=
  ((returned_sublist b).trans (takenOf_sublist b.removed)).trans h.removed.sublist

/-- Without a drain nothing is drained. -/
theorem undrained_step {l l' : TunnelLink} {s : Side} {ev : Side × TunnelEvent}
    (h : ∀ x ∈ (l s).removed, x.1 ≠ .drain) (hev : ev ≠ (s, .drain))
    (hstep : TunnelLink.step P l ev = some l') : ∀ x ∈ (l' s).removed, x.1 ≠ .drain := by
  rcases TunnelLink.step_cases hstep s with ⟨rfl, hs, -⟩ | ⟨-, -, hs⟩
  · obtain ⟨s, ev⟩ := ev
    generalize l' s = e' at hs ⊢
    cases TunnelEnd.stepped_of_step hs with
    | recv size p rest hqueue =>
      intro x hx
      rcases List.mem_append.mp hx with hx | hx
      · exact h x hx
      · simp [List.mem_singleton.mp hx]
    | drain => exact absurd rfl hev
    | readLen buf hloop hlen =>
      rw [readLen_removed]
      exact h
    | readFrame n buf hloop hlen =>
      rw [readFrame_removed]
      exact h
    | write | arrive | round | readError | offer | giveUp | cancel => exact h
  · rw [hs]
    exact h

section Integrity

variable (hP : P.AEADLawful) {f g : StreamFramer} (hm : Matches f g) (hhc : f.headerCfg.Decodable)
  (hpad : f.paddingCfg.NonNegative)

include hP hhc hpad in
theorem Loyal.stepSender {a a' b : TunnelEnd} {ev : TunnelEvent} (h : Loyal P f g a b)
    (hstep : a.step P ev = some a') : Loyal P f g a' b :=
  ⟨h.sends.step hP hhc hpad hstep, h.receives, h.parsed.trans ((framed_isPrefix hstep).map _)⟩

include hm in
theorem Loyal.stepReceiver {a b b' : TunnelEnd} {ev : TunnelEvent} (h : Loyal P f g a b)
    (hstep : b.step P ev = some b') (hunf : Unforged P a b ev) : Loyal P f g a b' := by
  refine ⟨h.sends, h.receives.step hstep, ?_⟩
  cases TunnelEnd.stepped_of_step hstep with
  | readFrame n buf hloop hlen => exact readFrame_parsed hm h.sends h.receives h.parsed hloop hlen hunf
  | readLen buf hloop hlen => exact (readLen_parsed (P := P) b) ▸ h.parsed
  | write | arrive | round | readError | offer | giveUp | recv | cancel | drain => exact h.parsed

include hP hm hhc hpad in
theorem Loyal.step {l l' : TunnelLink} {s : Side} {ev : Side × TunnelEvent}
    (h : Loyal P f g (l s) (l s.other)) (hunf : ev.1 = s.other → Unforged P (l s) (l s.other) ev.2)
    (hstep : TunnelLink.step P l ev = some l') : Loyal P f g (l' s) (l' s.other) := by
  rcases TunnelLink.step_cases hstep s with ⟨-, hs, hother⟩ | ⟨hev, hother, hs⟩
  · rw [hother]
    exact h.stepSender hP hhc hpad hs
  · rw [hs]
    exact h.stepReceiver hm hother (hunf hev)

end Integrity

theorem sends_init (t : Tunnel) : Sends P t.framer (.init t) where
  half := rfl
  settings := rfl
  genuine := by simp [TunnelEnd.init]
  frames := rfl
  sound := by simp [TunnelEnd.init]

theorem receives_init (t : Tunnel) : Receives t.framer (.init t) where
  half _ := rfl
  headerCfg := rfl
  handed := List.prefix_rfl
  handed_eq _ := rfl
  removed := rfl
  undrained := by simp [TunnelEnd.init]

/-- Without a drain the consumer takes everything that leaves the channel. -/
theorem takenOf_run {t : Side → Tunnel} {s : Side} {evs : List (Side × TunnelEvent)} {l : TunnelLink}
    (hrun : run (TunnelLink.step P) (TunnelLink.start t) evs = some l) (hev : (s, .drain) ∉ evs) :
    (l s).taken.map Prod.snd = (l s).removed.map Prod.snd := by
  refine takenOf_undrained ?_
  refine run_inv (I := fun m => ∀ x ∈ (m s).removed, x.1 ≠ .drain)
    (C := fun _ ev => ev ≠ (s, .drain)) (fun _ _ _ hI hC hstep => undrained_step hI hC hstep)
    (by simp [TunnelLink.start, TunnelEnd.init]) ?_ hrun
  exact along_of_mem fun _ ev hmem heq => hev (heq ▸ hmem)

/-- **Integrity of the stream.** Let two fresh tunnels share their keys, and let everything happen
in any order: calls of `writePacket`, rounds of the loops, consumers, cancellations, and a network
that delivers any bytes. As long as no ciphertext is forged, each end parses an initial part of the
packets that the other end has framed. The payloads that its consumer gets are among their DATA
payloads, in their order and none twice; and as long as no `Close` drains the channel, the packets
that the consumer takes (those that do not fit into its buffer included) are an initial part of
them: nothing is changed, repeated, left out or out of order. -/
theorem taken_isPrefix (hP : P.AEADLawful) (t : Side → Tunnel) (s : Side)
    (hm : Matches (t s).framer (t s.other).framer) (hhc : (t s).framer.headerCfg.Decodable)
    (hpad : (t s).framer.paddingCfg.NonNegative) (evs : List (Side × TunnelEvent)) (l : TunnelLink)
    (hrun : run (TunnelLink.step P) (TunnelLink.start t) evs = some l)
    (hunf : Along (TunnelLink.step P) (fun m ev => ev.1 = s.other →
      Unforged P (m s) (m s.other) ev.2) (TunnelLink.start t) evs) :
    (l s.other).parsed <+: (l s).framed.map Framed.packet ∧
    (l s.other).returned.Sublist (dataOf ((l s).framed.map Framed.packet)) ∧
    ((s.other, .drain) ∉ evs →
      (l s.other).taken.map Prod.snd <+: dataOf ((l s).framed.map Framed.packet)) := by
  have h0 : Loyal P (t s).framer (t s.other).framer (TunnelLink.start t s)
      (TunnelLink.start t s.other) :=
    ⟨sends_init (t s), receives_init (t s.other), List.prefix_rfl⟩
  have h : Loyal P (t s).framer (t s.other).framer (l s) (l s.other) :=
    run_inv (I := fun m => Loyal P (t s).framer (t s.other).framer (m s) (m s.other))
      (fun _ _ _ hI hC hstep => hI.step hP hm hhc hpad hC hstep) h0 hunf hrun
  refine ⟨h.parsed, h.returned, fun hev => ?_⟩
  rw [takenOf_run hrun hev]
  exact h.removed

section Samples

def sampleEnds : Side → Tunnel
  | .left => sampleTunnel
  | .right => { sampleTunnel with framer := sampleReceiver }

def sampleWrites : List WriteStep :=
  [.writePacket .data [1, 2] ⟨0, 0, 0, fun _ => 0⟩ 0 [],
    .writePacket .data [3] ⟨0, 0, 0, fun _ => 0⟩ 0 []]

def sampleWire : Bytes := wireOf (sampleTunnel.writeAll .sample sampleWrites).1

/-- Two frames, of which the network changes the last byte. -/
def sampleTampering : List (Side × TunnelEvent) :=
  [(.left, .write .data [1, 2] ⟨0, 0, 0, fun _ => 0⟩ 0 []),
    (.left, .write .data [3] ⟨0, 0, 0, fun _ => 0⟩ 0 []),
    (.right, .round 0), (.right, .arrive (sampleWire.take 3)),
    (.right, .arrive ((sampleWire.drop 3).dropLast ++ [255])), (.right, .read fun _ => 0),
    (.right, .read fun _ => 0), (.right, .offer), (.right, .round 0), (.right, .recv none),
    (.right, .read fun _ => 0), (.right, .read fun _ => 0)]

/-- What opens is a frame of the other end that has come through unchanged. -/
def intact (P : Primitives) (peer e : TunnelEnd) : TunnelEvent → Bool
  | .read _ =>
    match e.loop with
    | .readFrame n =>
      match e.tunnel.framer.parseFrameInto P [] (e.inbox.take n) with
      | (.error _, _) => true
      | (.ok _, _) => peer.framed.any fun s =>
          s.counter = e.tunnel.framer.decCipher.counter ∧
          peer.tunnel.framer.encHeaderKey = e.tunnel.framer.decHeaderKey ∧
          peer.tunnel.framer.headerCfg = e.tunnel.framer.headerCfg ∧
          s.frame.drop 4 = e.inbox.take n
    | _ => true
  | _ => true

theorem unforged_of_intact {peer e : TunnelEnd} {ev : TunnelEvent} (h : intact P peer e ev = true) :
    Unforged P peer e ev := by
  cases ev with
  | read buf =>
    intro n head hloop hlen hread hopen
    obtain ⟨plaintext, hplain⟩ := Option.ne_none_iff_exists'.mp hopen
    simp only [intact, hloop, StreamFramer.parseFrameInto, hread, hplain, List.any_eq_true,
      decide_eq_true_eq] at h
    obtain ⟨s, hs, hctr, hkey, hcfg, hbytes⟩ := h
    exact unforged_of_frame hloop hs hctr hkey hcfg hbytes buf n head hloop hlen hread hopen
  | _ => exact trivial

def sampleTampered : TunnelLink :=
  last (TunnelLink.step .sample) (TunnelLink.start sampleEnds) sampleTampering

theorem taken_isPrefix_tampered :
    (sampleTampered .right).taken = [(none, [1, 2])] ∧
    (sampleTampered .right).parsed <+: (sampleTampered .left).framed.map Framed.packet ∧
    (sampleTampered .right).returned.Sublist
      (dataOf ((sampleTampered .left).framed.map Framed.packet)) ∧
    (sampleTampered .right).taken.map Prod.snd <+:
      dataOf ((sampleTampered .left).framed.map Framed.packet) := by
  have hintact : Along (TunnelLink.step .sample)
      (fun m ev => intact .sample (m .left) (m .right) ev.2 = true) (TunnelLink.start sampleEnds)
      sampleTampering := by
    decide +kernel
  have hunf : Along (TunnelLink.step .sample) (fun m ev => ev.1 = Side.left.other →
      Unforged .sample (m .left) (m Side.left.other) ev.2) (TunnelLink.start sampleEnds)
      sampleTampering := by
    refine hintact.mono fun m ev h _ => ?_
    exact unforged_of_intact h
  obtain ⟨hparsed, hreturned, htaken⟩ := taken_isPrefix sample_lawful.toAEADLawful sampleEnds .left
    ⟨⟨rfl, rfl, rfl, rfl⟩, rfl⟩ defaultHeaderConfig_decodable
    (by unfold PaddingConfig.NonNegative; decide) sampleTampering sampleTampered
    (run_eq_last (by decide +kernel)) hunf
  refine ⟨by decide +kernel, hparsed, hreturned, htaken ?_⟩
  simp [sampleTampering, Side.other]

end Samples

end ObsidianVPN.Protocol
