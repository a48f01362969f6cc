import ObsidianVPN.Protocol.Framer

/-!
# The framing round trip

A sender makes any sequence of `Frame` and `FrameWithBuffer` calls; the receiver reads the
concatenation of the frames the way `recvLoop` does, with either of the two parsing functions.

* `Call`, `sendAll`: the sender; `recvFrame`, `recvAll`: the receiver;
* `Matches`: the receiving half of a framer agrees with the sending half of another;
* `Call.run_cases`, `recvFrame_eq`: one call, one frame;
* **`recvAll_sendAll`**: the receiver gets exactly the packets of the calls that succeeded, in
  order, and the framers still match.
-/

namespace ObsidianVPN.Protocol

open ByteStr

/-- The receiving half of `g` agrees with the sending half of `f`. -/
structure Matches (f g : StreamFramer) : Prop extends Crossed f g where
  headerCfg : g.headerCfg = f.headerCfg

/-! ## The sender -/

/-- A framing call with its random draws. -/
inductive Call where
  | frame (ptype : PacketType) (payload : Bytes) (r : Draws)
  | withBuffer (dstLen : ℕ) (ptype : PacketType) (payload : Bytes) (r : Draws)

def Call.packet : Call → Packet
  | .frame ptype payload _ => ⟨ptype, payload⟩
  | .withBuffer _ ptype payload _ => ⟨ptype, payload⟩

def Call.run (P : Primitives) (f : StreamFramer) : Call → Except String Bytes × StreamFramer
  | .frame ptype payload r => f.frame P ptype payload r
  | .withBuffer dstLen ptype payload r => f.frameWithBuffer P dstLen ptype payload r

/-- What a sequence of calls has produced. -/
structure Sent where
  stream : Bytes
  packets : List Packet
  framer : StreamFramer

def sendAll (P : Primitives) (f : StreamFramer) : List Call → Sent
  | [] => ⟨[], [], f⟩
  | call :: calls =>
    match call.run P f with
    | (.ok frame, f) =>
      let rest := sendAll P f calls
      ⟨frame ++ rest.stream, call.packet :: rest.packets, rest.framer⟩
    | (.error _, f) => sendAll P f calls

/-- The size of the padding the draws give. -/
def StreamFramer.padLen (f : StreamFramer) (ptype : PacketType) (payload : Bytes) (r : Draws) : ℕ :=
  match padLength (f.padBounds ptype payload r).1 (f.padBounds ptype payload r).2 r.pad with
  | .ok n => n
  | .error _ => 0

/-- The payload is not too long, and the buffer, if there is one, not too short. -/
def Call.Fits (f : StreamFramer) : Call → Prop
  | .frame _ payload _ => payload.length ≤ maxPayload
  | .withBuffer dstLen ptype payload r =>
    payload.length ≤ maxPayload ∧ 28 + payload.length + f.padLen ptype payload r ≤ dstLen

instance (f : StreamFramer) : DecidablePred (Call.Fits f) := fun call => by
  cases call <;> unfold Call.Fits <;> infer_instance

/-! ## The receiver -/

/-- A frame as the receiver has it: its decoded length and the packet. -/
structure Received where
  frameLen : ℕ
  packet : Packet

/-- One round of `recvLoop`. The packet is parsed with `ParseFrame`, or with `ParseFrameInto` and a
buffer of the frame's size with any contents. -/
def recvFrame (P : Primitives) (g : StreamFramer) (buf : Option (ℕ → UInt8)) (stream : Bytes) :
    Except String (Received × Bytes × StreamFramer) :=
  if stream.length < 4 then .error "EOF"
  else
    let (frameLen, g) := g.decodeFrameLen P (getBE (stream.take 4))
    if frameLen > maxFrameSize then .error s!"tunnel recv invalid frame len: {frameLen}"
    else if (stream.drop 4).length < frameLen then .error "unexpected EOF"
    else
      let raw := (stream.drop 4).take frameLen
      let rest := (stream.drop 4).drop frameLen
      match buf with
      | none =>
        match g.parseFrame P raw with
        | (.ok p, g) => .ok (⟨frameLen, p⟩, rest, g)
        | (.error err, _) => .error err
      | some b =>
        match g.parseFrameInto P (fill frameLen b) raw with
        | (.ok (ptype, payLen, dst), g) => .ok (⟨frameLen, ptype, dst.take payLen⟩, rest, g)
        | (.error err, _) => .error err

/-- Reading one frame for each choice of a parsing function. -/
def recvAll (P : Primitives) (g : StreamFramer) :
    List (Option (ℕ → UInt8)) → Bytes → Except String (List Received × Bytes × StreamFramer)
  | [], stream => .ok ([], stream, g)
  | buf :: bufs, stream =>
    match recvFrame P g buf stream with
    | .error err => .error err
    | .ok (r, rest, g) =>
      match recvAll P g bufs rest with
      | .error err => .error err
      | .ok (rs, rest, g) => .ok (r :: rs, rest, g)

/-! ## One call, one frame -/

variable {P : Primitives}

theorem StreamFramer.goodBounds {f : StreamFramer} (h : f.paddingCfg.NonNegative)
    (ptype : PacketType) (payload : Bytes) (r : Draws) :
    GoodBounds (f.padBounds ptype payload r).1 (f.padBounds ptype payload r).2 := by
  unfold StreamFramer.padBounds
  split
  · exact ⟨calculateBucketPaddingWithTrailer_nonneg _ _ _ _, .inl le_rfl⟩
  · simp only [PaddingConfig.NonNegative, List.forall_mem_cons] at h
    cases ptype <;> simp only [StreamFramer.paddingFor, GoodBounds] <;> omega

theorem StreamFramer.padLen_spec {f : StreamFramer} (h : f.paddingCfg.NonNegative)
    (ptype : PacketType) (payload : Bytes) (r : Draws) :
    padLength (f.padBounds ptype payload r).1 (f.padBounds ptype payload r).2 r.pad =
        .ok (f.padLen ptype payload r) ∧
      (f.padLen ptype payload r : ℤ) ≤
        maxPad (f.padBounds ptype payload r).1 (f.padBounds ptype payload r).2 ∧
      f.padLen ptype payload r ≤ 255 := by
  obtain ⟨n, hn, hmax, h255⟩ := padLength_ok (StreamFramer.goodBounds h ptype payload r) r.pad
  have : f.padLen ptype payload r = n := by simp only [StreamFramer.padLen, hn]
  rw [this]
  exact ⟨hn, hmax, h255⟩

/-- The framer after a frame: one nonce and one frame counter are used up. -/
def StreamFramer.afterFrame (f : StreamFramer) : StreamFramer :=
  { f with encCipher := f.encCipher.next, encFrameCtr := f.encFrameCtr + 1 }

theorem packetLen_le {payLen padLen : ℕ} (hpay : payLen ≤ maxPayload) (hpad : padLen ≤ 255) :
    24 + payLen + padLen ≤ maxFrameSize := by
  unfold maxFrameSize; omega

/-- **What a framing call does**: a frame that decodes if it fits, and nothing otherwise. -/
theorem Call.run_cases (hP : P.AEADLawful) (f : StreamFramer) (hhc : f.headerCfg.Decodable)
    (hpad : f.paddingCfg.NonNegative) (call : Call) :
    if call.Fits f then
      ∃ pkt, call.run P f =
          (.ok (putBE 4 (maskFrameLen P f.encFrameKey f.encFrameCtr pkt.length) ++ pkt),
            f.afterFrame) ∧
        pkt.length ≤ maxFrameSize ∧
        Decodes P f.encCipher f.encHeaderKey f.headerCfg pkt call.packet
    else ∃ err, call.run P f = (.error err, f) := by
  cases call with
  | frame ptype payload r =>
    obtain ⟨hlen, hmax, h255⟩ := StreamFramer.padLen_spec hpad ptype payload r
    -- the buffer `Frame` allocates holds the largest padding
    have henc := encode_cases hP hhc
      (packetHeaderSize + payload.length + maxPad (f.padBounds ptype payload r).1
        (f.padBounds ptype payload r).2 + tagSize : ℤ).toNat
      f.encCipher f.encHeaderKey ptype payload hlen h255
    by_cases hfits : (Call.frame ptype payload r).Fits f
    · have hshort : ¬payload.length > maxPayload := Nat.not_lt.mpr hfits
      rw [if_pos ⟨hfits, by simp only [packetHeaderSize, tagSize]; omega⟩] at henc
      obtain ⟨pkt, heq, hpkt, hdec⟩ := henc
      rw [if_pos hfits]
      refine ⟨pkt, ?_, hpkt ▸ packetLen_le hfits h255, hdec⟩
      simp only [Call.run, StreamFramer.frame, encodePacketWithHeaderProtection, if_neg hshort, heq]
      rfl
    · have hlong : payload.length > maxPayload := Nat.lt_of_not_le hfits
      rw [if_neg hfits]
      simp only [Call.run, StreamFramer.frame, encodePacketWithHeaderProtection, if_pos hlong]
      exact ⟨_, rfl⟩
  | withBuffer dstLen ptype payload r =>
    obtain ⟨hlen, -, h255⟩ := StreamFramer.padLen_spec hpad ptype payload r
    have henc := encode_cases hP hhc (dstLen - 4) f.encCipher f.encHeaderKey ptype payload hlen h255
    by_cases hfits : (Call.withBuffer dstLen ptype payload r).Fits f
    · obtain ⟨hpay, hbuf⟩ := id hfits
      rw [if_pos ⟨hpay, by omega⟩] at henc
      obtain ⟨pkt, heq, hpkt, hdec⟩ := henc
      rw [if_pos hfits]
      refine ⟨pkt, ?_, hpkt ▸ packetLen_le hpay h255, hdec⟩
      simp only [Call.run, StreamFramer.frameWithBuffer, if_neg (show ¬dstLen < 4 by omega), heq]
      rfl
    · rw [if_neg hfits]
      simp only [Call.run, StreamFramer.frameWithBuffer]
      by_cases hshort : dstLen < 4
      · exact ⟨_, if_pos hshort⟩
      · rw [if_neg fun h => hfits ⟨h.1, by omega⟩] at henc
        obtain ⟨err, heq⟩ := henc
        exact ⟨err, by rw [if_neg hshort, heq]; rfl⟩

theorem maskFrameLen_lt (key : Option Bytes) (ctr : ℕ) {n : ℕ} (hn : n < 2 ^ 32) :
    maskFrameLen P key ctr n < 2 ^ 32 := by
  cases key with
  | none => exact hn
  | some key =>
    refine Nat.xor_lt_two_pow hn (lt_of_lt_of_le (getBE_lt _) ?_)
    calc 256 ^ (List.take 4 _).length ≤ 256 ^ 4 :=
          Nat.pow_le_pow_right (by decide) (List.length_take_le _ _)
      _ = 2 ^ 32 := by decide

theorem maskFrameLen_maskFrameLen (key : Option Bytes) (ctr n : ℕ) :
    maskFrameLen P key ctr (maskFrameLen P key ctr n) = n := by
  cases key with
  | none => rfl
  | some key => exact xor_xor_cancel_right _ _

/-- **One frame is read back**, by either parsing function. -/
theorem recvFrame_eq {f g : StreamFramer} (hm : Matches f g) {pkt : Bytes} {p : Packet}
    (hlen : pkt.length ≤ maxFrameSize)
    (hdec : Decodes P f.encCipher f.encHeaderKey f.headerCfg pkt p) (buf : Option (ℕ → UInt8))
    (rest : Bytes) :
    ∃ g', recvFrame P g buf
        (putBE 4 (maskFrameLen P f.encFrameKey f.encFrameCtr pkt.length) ++ pkt ++ rest) =
          .ok (⟨pkt.length, p⟩, rest, g') ∧ Matches f.afterFrame g' := by
  have hsmall : pkt.length < 2 ^ 32 := lt_of_le_of_lt hlen (by decide)
  set masked := maskFrameLen P f.encFrameKey f.encFrameCtr pkt.length with hmasked
  have htake : (putBE 4 masked ++ pkt ++ rest).take 4 = putBE 4 masked := by
    rw [List.append_assoc, List.take_left' (length_putBE 4 masked)]
  have hdrop : (putBE 4 masked ++ pkt ++ rest).drop 4 = pkt ++ rest := by
    rw [List.append_assoc, List.drop_left' (length_putBE 4 masked)]
  have hunmask : g.decodeFrameLen P (getBE (putBE 4 masked)) =
      (pkt.length, { g with decFrameCtr := g.decFrameCtr + 1 }) := by
    rw [getBE_putBE_of_lt (by simpa using maskFrameLen_lt _ _ hsmall), StreamFramer.decodeFrameLen,
      hm.frameKey, hm.frameCtr, hmasked, maskFrameLen_maskFrameLen]
  have hlong : ¬(putBE 4 masked ++ pkt ++ rest).length < 4 := by simp
  have hfull : ¬(pkt ++ rest).length < pkt.length := by simp
  have hdec' : Decodes P g.decCipher g.decHeaderKey g.headerCfg pkt p := by
    rw [hm.cipher, hm.headerKey, hm.headerCfg]; exact hdec
  have hmatch : Matches f.afterFrame
      { g with decFrameCtr := g.decFrameCtr + 1, decCipher := g.decCipher.next } :=
    ⟨⟨congrArg Cipher.next hm.cipher, hm.headerKey, hm.frameKey, congrArg (· + 1) hm.frameCtr⟩,
      hm.headerCfg⟩
  refine ⟨{ g with decFrameCtr := g.decFrameCtr + 1, decCipher := g.decCipher.next }, ?_, hmatch⟩
  simp only [recvFrame, if_neg hlong, htake, hdrop, hunmask, Nat.not_lt.mpr hlen,
    if_false, if_neg hfull, List.take_left, List.drop_left]
  cases buf with
  | none =>
    have hp := Decodes.parseFrame (f := { g with decFrameCtr := g.decFrameCtr + 1 }) hdec'
    simp only [hp]
  | some b =>
    obtain ⟨dst, hp, hpay⟩ := Decodes.parseFrameInto
      (f := { g with decFrameCtr := g.decFrameCtr + 1 }) hdec' (length_fill pkt.length b)
    simp only [hp, hpay]

/-! ## Whole streams -/

theorem Call.fits_afterFrame (f : StreamFramer) (call : Call) :
    call.Fits f.afterFrame ↔ call.Fits f := by
  cases call <;> rfl

/-- **The framing round trip.** Whatever the calls and their draws, the receiver gets exactly the
packets of the calls that succeeded, in order; those are the calls whose payload and buffer fit. All
decoded lengths are within bounds, and the two ends still match. -/
theorem recvAll_sendAll (hP : P.AEADLawful) (f g : StreamFramer) (hm : Matches f g)
    (hhc : f.headerCfg.Decodable) (hpad : f.paddingCfg.NonNegative) (calls : List Call)
    (bufs : List (Option (ℕ → UInt8)))
    (hbufs : bufs.length = (sendAll P f calls).packets.length) :
    (sendAll P f calls).packets = (calls.filter fun call => decide (call.Fits f)).map Call.packet ∧
    ∃ rs g', recvAll P g bufs (sendAll P f calls).stream = .ok (rs, [], g') ∧
      rs.map Received.packet = (sendAll P f calls).packets ∧
      (∀ r ∈ rs, r.frameLen ≤ maxFrameSize) ∧
      Matches (sendAll P f calls).framer g' := by
  induction calls generalizing f g bufs with
  | nil =>
    obtain rfl : bufs = [] := List.length_eq_zero_iff.mp hbufs
    exact ⟨rfl, [], g, rfl, rfl, by simp, hm⟩
  | cons call calls ih =>
    have hcall := Call.run_cases hP f hhc hpad call
    by_cases hfits : call.Fits f
    · rw [if_pos hfits] at hcall
      obtain ⟨pkt, hrun, hlen, hdec⟩ := hcall
      simp only [sendAll, hrun] at hbufs ⊢
      obtain ⟨buf, bufs, rfl⟩ := List.exists_cons_of_length_eq_add_one hbufs
      -- the frame is read, and the rest of the stream by induction
      obtain ⟨g₁, hrecv, hm₁⟩ := recvFrame_eq hm hlen hdec buf (sendAll P f.afterFrame calls).stream
      obtain ⟨hsent, rs, g', hall, hpk, hmax, hm'⟩ :=
        ih f.afterFrame g₁ hm₁ hhc hpad bufs (Nat.succ.inj hbufs)
      refine ⟨?_, ⟨pkt.length, call.packet⟩ :: rs, g', ?_, ?_, ?_, hm'⟩
      · rw [hsent]
        simp [hfits, Call.fits_afterFrame]
      · simp only [recvAll, hrecv, hall]
      · simp [hpk]
      · simpa using ⟨hlen, hmax⟩
    · rw [if_neg hfits] at hcall
      obtain ⟨err, hrun⟩ := hcall
      simp only [sendAll, hrun] at hbufs ⊢
      obtain ⟨hsent, hrest⟩ := ih f g hm hhc hpad bufs hbufs
      exact ⟨by simp [hsent, hfits], hrest⟩

/-! ## A short stream -/

def sampleSender : StreamFramer :=
  newProtectedStreamFramer (newCipher [1] (List.replicate 12 0)) (newCipher [2] (List.replicate 12 0))
    [3] [4]

def sampleReceiver : StreamFramer :=
  newProtectedStreamFramer (newCipher [2] (List.replicate 12 0)) (newCipher [1] (List.replicate 12 0))
    [4] [3]

/-- Two frames, with a call that fails for want of buffer space between them. -/
def sampleCalls : List Call :=
  [.frame .data [1, 2, 3] ⟨0, 0, 5, fun _ => 9⟩, .withBuffer 10 .noise [7] ⟨0, 0, 0, fun _ => 0⟩,
    .withBuffer 400 .keepalive [8] ⟨3, 0, 1, fun _ => 0⟩]

theorem recvAll_sampleCalls :
    ∃ rs g', recvAll .sample sampleReceiver [none, some fun _ => 0]
        (sendAll .sample sampleSender sampleCalls).stream = .ok (rs, [], g') ∧
      rs.map Received.packet = (sendAll .sample sampleSender sampleCalls).packets ∧
      (∀ r ∈ rs, r.frameLen ≤ maxFrameSize) ∧
      Matches (sendAll .sample sampleSender sampleCalls).framer g' :=
  (recvAll_sendAll sample_lawful.toAEADLawful sampleSender sampleReceiver ⟨⟨rfl, rfl, rfl, rfl⟩, rfl⟩
    defaultHeaderConfig_decodable (by unfold PaddingConfig.NonNegative; decide) sampleCalls
    [none, some fun _ => 0] (by decide +kernel)).2

end ObsidianVPN.Protocol
