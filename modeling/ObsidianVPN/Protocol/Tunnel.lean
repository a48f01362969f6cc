import ObsidianVPN.Protocol.RoundTrip

/-!
# Tunnels

The sending side of `Tunnel`: `writePacket` counts the packet, checks whether the session has
expired, and hands the payload to the framer. The receiving loop counts packets with the same
counter.

* `newTunnel`, `Tunnel.sessionExpired`, `Tunnel.writePacket`, `Tunnel.recvRound`;
* `Action`: everything one party does with its framer after the handshake;
* **`Action.run_encCipher`**: an action takes one nonce if it reaches `Seal`, and none otherwise.
-/

namespace ObsidianVPN.Protocol

open ByteStr

/-- The fields of `TunnelConfig` that decide about padding and expiry. -/
structure TunnelConfig where
  maxSessionDuration : ℤ
  maxSessionPackets : ℕ
  dataPadMin : ℤ
  dataPadMax : ℤ
  useBucketPadding : Bool
  bucketMTU : ℤ
  maxTrailer : ℤ

structure Tunnel where
  framer : StreamFramer
  createdAt : ℤ
  maxDuration : ℤ
  maxPackets : ℕ
  packetCount : ℕ
  /-- The context of the tunnel has been cancelled. -/
  cancelled : Bool

def minute : ℤ := 60 * second

/-- `NewTunnel` at the instant `now`; the jitter of the lifetime is one to five minutes. -/
def newTunnel (framer : StreamFramer) (cfg : TunnelConfig) (now : ℤ) (jitter : ℕ) (shorter : Bool) :
    Tunnel :=
  let jitterMin := (1 + (jitter % 5 : ℕ)) * minute
  let dynDuration :=
    if cfg.maxSessionDuration > 0 then
      let d := wrap64 (if shorter then cfg.maxSessionDuration - jitterMin
        else cfg.maxSessionDuration + jitterMin)
      if d < minute then minute else d
    else cfg.maxSessionDuration
  { framer := { framer with
      paddingCfg := { framer.paddingCfg with
        dataMin := cfg.dataPadMin
        dataMax := cfg.dataPadMax
        useBucketPadding := cfg.useBucketPadding
        bucketMTU := cfg.bucketMTU
        maxTrailer := cfg.maxTrailer } }
    createdAt := now
    maxDuration := dynDuration
    maxPackets := cfg.maxSessionPackets
    packetCount := 0
    cancelled := false }

/-- The tunnel works on `f`, with padding sizes of its own. -/
def Tunnel.Over (t : Tunnel) (f : StreamFramer) : Prop :=
  t.framer = { f with paddingCfg := t.framer.paddingCfg }

theorem newTunnel_over (f : StreamFramer) (cfg : TunnelConfig) (now : ℤ) (jitter : ℕ)
    (shorter : Bool) : (newTunnel f cfg now jitter shorter).Over f := rfl

theorem Tunnel.Over.encCipher {t : Tunnel} {f : StreamFramer} (h : t.Over f) :
    t.framer.encCipher = f.encCipher :=
  (congrArg StreamFramer.encCipher h).trans rfl

/-- The counter is looked at once in 1024 packets. -/
def Tunnel.sessionExpired (t : Tunnel) (count : ℕ) (now : ℤ) : Bool :=
  if count &&& 1023 ≠ 0 then false
  else if t.maxDuration > 0 ∧ now - t.createdAt ≥ t.maxDuration then true
  else decide (t.maxPackets > 0 ∧ count ≥ t.maxPackets)

/-- `packetCount.Add(1)`. -/
def Tunnel.count (t : Tunnel) : Tunnel := { t with packetCount := (t.packetCount + 1) % 2 ^ 64 }

section Actions

variable (P : Primitives)

/-- The buffer of `writePacket`. -/
def writeBufLen (payload : Bytes) : ℕ := 4 + packetHeaderSize + payload.length + 256 + tagSize

/-- `writePacket` at the instant `now`; `connErr` is what the connection says. -/
def Tunnel.writePacket (t : Tunnel) (ptype : PacketType) (payload : Bytes) (r : Draws) (now : ℤ)
    (connErr : Option String) : Except String Bytes × Tunnel :=
  let t := t.count
  if t.sessionExpired t.packetCount now then
    (.error "io: read/write on closed pipe", { t with cancelled := true })
  else
    match t.framer.frameWithBuffer P (writeBufLen payload) ptype payload r with
    | (.error err, f) => (.error err, { t with framer := f })
    | (.ok frame, f) =>
      match connErr with
      | some err => (.error err, { t with framer := f, cancelled := true })
      | none => (.ok frame, { t with framer := f })

/-- The head of a round of `recvLoop`, which ends the loop when the session has expired. -/
def Tunnel.recvRound (t : Tunnel) (now : ℤ) : Tunnel :=
  let t := t.count
  if t.sessionExpired t.packetCount now then { t with cancelled := true } else t

/-- What a party does after the handshake. -/
inductive Action where
  | call (c : Call)
  | writePacket (ptype : PacketType) (payload : Bytes) (r : Draws) (now : ℤ)
      (connErr : Option String)
  | recvRound (now : ℤ)

def Action.run (t : Tunnel) : Action → Tunnel
  | .call c => { t with framer := (c.run P t.framer).2 }
  | .writePacket ptype payload r now connErr => (t.writePacket P ptype payload r now connErr).2
  | .recvRound now => t.recvRound now

end Actions

/-! ## Nonces of one party -/

/-- The call passes every check before `Seal`. -/
def Call.reachesSeal (f : StreamFramer) : Call → Bool
  | .frame ptype payload r =>
    Protocol.reachesSeal (packetHeaderSize + payload.length +
        maxPad (f.padBounds ptype payload r).1 (f.padBounds ptype payload r).2 + tagSize).toNat
      f.headerCfg ptype payload (f.padBounds ptype payload r).1 (f.padBounds ptype payload r).2 r
  | .withBuffer dstLen ptype payload r =>
    Protocol.reachesSeal (dstLen - 4) f.headerCfg ptype payload (f.padBounds ptype payload r).1
      (f.padBounds ptype payload r).2 r

/-- The action passes every check before `Seal`. -/
def Action.reachesSeal (t : Tunnel) : Action → Bool
  | .call c => c.reachesSeal t.framer
  | .writePacket ptype payload r now _ =>
    !t.sessionExpired t.count.packetCount now &&
      (Call.withBuffer (writeBufLen payload) ptype payload r).reachesSeal t.framer
  | .recvRound _ => false

variable {P : Primitives}

theorem finishFrame_encCipher (f : StreamFramer) (encoded : Except String Bytes × Cipher Bytes) :
    (f.finishFrame P encoded).2.encCipher = encoded.2 := by
  obtain ⟨_ | _, c⟩ := encoded <;> rfl

theorem reachesSeal_of_short {dstLen : ℕ} (h : dstLen < packetHeaderSize) (hc : HeaderConfig)
    (ptype : PacketType) (payload : Bytes) (padMin padMax : ℤ) (r : Draws) :
    reachesSeal dstLen hc ptype payload padMin padMax r = false := by
  unfold reachesSeal
  split
  · exact decide_eq_false fun hle => by omega
  · rfl

theorem Call.run_encCipher (f : StreamFramer) (call : Call) :
    (call.run P f).2.encCipher =
      if call.reachesSeal f then f.encCipher.next else f.encCipher := by
  cases call with
  | frame ptype payload r =>
    refine Eq.trans ?_ (encode_cipher (P := P) _ f.encCipher f.encHeaderKey f.headerCfg ptype payload
      _ _ r)
    refine (finishFrame_encCipher f _).trans ?_
    rw [encodePacketWithHeaderProtection]
    split
    · rename_i hlong
      rw [encodePacketWithHeaderProtectionBuffer, if_pos hlong]
    · rfl
  | withBuffer dstLen ptype payload r =>
    refine Eq.trans ?_ (encode_cipher (P := P) (dstLen - 4) f.encCipher f.encHeaderKey f.headerCfg
      ptype payload _ _ r)
    simp only [Call.run, StreamFramer.frameWithBuffer]
    by_cases hshort : dstLen < 4
    · rw [if_pos hshort, encode_cipher, reachesSeal_of_short (by simp only [packetHeaderSize]; omega)]
      rfl
    · rw [if_neg hshort, finishFrame_encCipher]

theorem writePacket_framer (t : Tunnel) (ptype : PacketType) (payload : Bytes) (r : Draws) (now : ℤ)
    (connErr : Option String) :
    (t.writePacket P ptype payload r now connErr).2.framer =
      if t.sessionExpired t.count.packetCount now then t.framer
      else ((Call.withBuffer (writeBufLen payload) ptype payload r).run P t.framer).2 := by
  unfold Tunnel.writePacket
  -- counting changes neither the limits nor the framer
  by_cases hexp : t.sessionExpired t.count.packetCount now = true
  · have hexp' : t.count.sessionExpired t.count.packetCount now = true := hexp
    simp only [hexp, hexp', if_true]
    rfl
  · have hexp' : ¬t.count.sessionExpired t.count.packetCount now = true := hexp
    simp only [hexp, hexp', Call.run]
    rw [show t.count.framer = t.framer from rfl]
    rcases t.framer.frameWithBuffer P (writeBufLen payload) ptype payload r with ⟨_ | _, f⟩
    · rfl
    · cases connErr <;> rfl

/-- **Each action takes at most one nonce, and takes it exactly when it reaches `Seal`.** -/
theorem Action.run_encCipher (t : Tunnel) (a : Action) :
    (a.run P t).framer.encCipher =
      if a.reachesSeal t then t.framer.encCipher.next else t.framer.encCipher := by
  cases a with
  | call c => exact Call.run_encCipher t.framer c
  | writePacket ptype payload r now connErr =>
    rw [Action.run, writePacket_framer, Action.reachesSeal]
    cases t.sessionExpired t.count.packetCount now with
    | true => rfl
    | false => exact Call.run_encCipher t.framer _
  | recvRound now =>
    rw [Action.run, Tunnel.recvRound, Action.reachesSeal]
    split <;> rfl

end ObsidianVPN.Protocol
