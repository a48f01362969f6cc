import ObsidianVPN.Crypto.Primitives
import ObsidianVPN.Protocol.Header

/-!
# Packets and stream framing

A packet is a masked 8-byte header followed by the sealed payload and padding; a frame is a packet
behind its masked length. The sender and the receiver each count frames and nonces.

* `encodePacketWithHeaderProtectionBuffer`, `decodePacketWithHeaderProtection`: packets;
* `StreamFramer.frame`, `frameWithBuffer`, `decodeFrameLen`, `parseFrame`, `parseFrameInto`: frames;
* **`readHeader_append`**: the receiver recovers the parts of a packet; `Decodes`: a packet decodes
  to a type and a payload, by either of the two parsing functions;
* **`encode_cases`**: what an encoding call does, once a padding size is drawn.
-/

namespace ObsidianVPN.Protocol

open ByteStr GoString

def obsidianVersion : ℕ := 0x02
def maxPayload : ℕ := 65535
def maxFrameSize : ℕ := maxPayload + 512
def packetHeaderSize : ℕ := 8

structure Packet where
  type : PacketType
  payload : Bytes
  deriving DecidableEq, Repr

/-- The random choices of one framing call: padding size, bucket trailer, type id, padding bytes. -/
structure Draws where
  pad : ℕ
  trailer : ℕ
  typeID : ℕ
  padding : ℕ → UInt8

/-! ## Packets -/

section Packets

variable (P : Primitives)

def xorPacketHeader (header : Bytes) (key : Option Bytes) (sample : Bytes) : Except String Bytes :=
  match key with
  | none => .ok header
  | some key =>
    if header.length ≠ packetHeaderSize then
      .error s!"invalid packet header size: {header.length}"
    else if sample.length < 16 then .error "packet header protection sample too short"
    else .ok (xorBytes header (fill packetHeaderSize (P.chacha20 key (sample.take nonceSize))))

/-- The header of a packet before it is masked, which is also the data its seal authenticates. -/
def packetAAD (typeID : UInt32) (payLen padLen : ℕ) : Bytes :=
  putBE 4 typeID.toNat ++ putBE 2 payLen ++ putBE 1 padLen ++ putBE 1 obsidianVersion

/-- The largest padding a packet may get. -/
def maxPad (padMin padMax : ℤ) : ℤ :=
  let maxPad := if padMax < padMin then padMin else padMax
  if maxPad > 255 then 255 else maxPad

/-- The number of padding bytes of a packet; a negative bound makes the slice of the buffer
panic. -/
def padLength (padMin padMax : ℤ) (draw : ℕ) : Except String ℕ :=
  if maxPad padMin padMax < 0 then .error "panic: slice bounds out of range"
  else fastRandomPaddingInplace (maxPad padMin padMax).toNat padMin padMax draw

/-- `encodePacketWithHeaderProtectionBuffer` on a destination of the given length: the bytes
written, and the cipher after the call. -/
def encodePacketWithHeaderProtectionBuffer (dstLen : ℕ) (c : Cipher Bytes)
    (headerKey : Option Bytes) (hc : HeaderConfig) (ptype : PacketType) (payload : Bytes)
    (padMin padMax : ℤ) (r : Draws) : Except String Bytes × Cipher Bytes :=
  if payload.length > maxPayload then (.error s!"payload too large: {payload.length}", c)
  else
    match padLength padMin padMax r.pad with
    | .error err => (.error err, c)
    | .ok padLen =>
      let plaintext := payload ++ fill padLen r.padding
      if dstLen < packetHeaderSize + plaintext.length + tagSize then (.error "short buffer", c)
      else
        match (hc.rangeFor ptype).pick r.typeID with
        | .error err => (.error err, c)
        | .ok typeID =>
          let aad := packetAAD typeID payload.length padLen
          let sealed := c.encrypt P.suite plaintext aad
          match xorPacketHeader P aad headerKey (sealed.1.take tagSize) with
          | .error err => (.error err, sealed.2)
          | .ok header => (.ok (header ++ sealed.1), sealed.2)

def encodePacketWithHeaderProtection (c : Cipher Bytes) (headerKey : Option Bytes)
    (hc : HeaderConfig) (ptype : PacketType) (payload : Bytes) (padMin padMax : ℤ) (r : Draws) :
    Except String Bytes × Cipher Bytes :=
  if payload.length > maxPayload then (.error s!"payload too large: {payload.length}", c)
  else
    encodePacketWithHeaderProtectionBuffer P
      (packetHeaderSize + payload.length + maxPad padMin padMax + tagSize).toNat
      c headerKey hc ptype payload padMin padMax r

/-- What the receiver reads from a packet before it decrypts it. -/
structure PacketHead where
  type : PacketType
  payLen : ℕ
  padLen : ℕ
  aad : Bytes
  ct : Bytes

/-- The common part of `decodePacketWithHeaderProtection` and `ParseFrameInto`. -/
def readHeader (headerKey : Option Bytes) (hc : HeaderConfig) (data : Bytes) :
    Except String PacketHead :=
  if data.length < packetHeaderSize + tagSize then .error "packet too short"
  else
    let ct := data.drop packetHeaderSize
    match xorPacketHeader P (data.take packetHeaderSize) headerKey ct with
    | .error err => .error err
    | .ok aad =>
      let typeID := UInt32.ofNat (getBE (slice aad 0 4))
      let payLen := getBE (slice aad 4 2)
      let padLen := getBE (slice aad 6 1)
      let version := getBE (slice aad 7 1)
      if version ≠ obsidianVersion then .error s!"unknown protocol version: {version}"
      else
        match hc.typeIDToPacketType typeID with
        | .error err => .error err
        | .ok ptype =>
          if ct.length ≠ payLen + padLen + tagSize then
            .error s!"length mismatch: got {ct.length}, want {payLen + padLen + tagSize}"
          else .ok ⟨ptype, payLen, padLen, aad, ct⟩

def decodePacketWithHeaderProtection (c : Cipher Bytes) (headerKey : Option Bytes)
    (hc : HeaderConfig) (data : Bytes) : Except String Packet × Cipher Bytes :=
  match readHeader P headerKey hc data with
  | .error err => (.error err, c)
  | .ok head =>
    let opened := c.decrypt P.suite head.ct head.aad
    match opened.1 with
    | none => (.error "decrypt: chacha20poly1305: message authentication failed", opened.2)
    | some plaintext => (.ok ⟨head.type, plaintext.take head.payLen⟩, opened.2)

end Packets

/-! ## Frames -/

structure StreamFramer where
  encCipher : Cipher Bytes
  decCipher : Cipher Bytes
  headerCfg : HeaderConfig
  paddingCfg : PaddingConfig
  encHeaderKey : Option Bytes
  decHeaderKey : Option Bytes
  encFrameKey : Option Bytes
  decFrameKey : Option Bytes
  encFrameCtr : ℕ
  decFrameCtr : ℕ

def newStreamFramer (enc dec : Cipher Bytes) : StreamFramer where
  encCipher := enc
  decCipher := dec
  headerCfg := defaultHeaderConfig
  paddingCfg := defaultPaddingConfig
  encHeaderKey := none
  decHeaderKey := none
  encFrameKey := none
  decFrameKey := none
  encFrameCtr := 0
  decFrameCtr := 0

def newProtectedStreamFramer (enc dec : Cipher Bytes) (encHeaderKey decHeaderKey : Bytes) :
    StreamFramer :=
  { newStreamFramer enc dec with
    encHeaderKey := some encHeaderKey
    decHeaderKey := some decHeaderKey
    encFrameKey := some encHeaderKey
    decFrameKey := some decHeaderKey }

/-- The receiving half of `g` has the cipher and the keys of the sending half of `f`. -/
structure Crossed (f g : StreamFramer) : Prop where
  cipher : g.decCipher = f.encCipher
  headerKey : g.decHeaderKey = f.encHeaderKey
  frameKey : g.decFrameKey = f.encFrameKey
  frameCtr : g.decFrameCtr = f.encFrameCtr

/-- A framer that has handled no frame. -/
structure StreamFramer.Initial (f : StreamFramer) : Prop where
  encCipher : f.encCipher.counter = 0
  decCipher : f.decCipher.counter = 0
  encFrameCtr : f.encFrameCtr = 0
  decFrameCtr : f.decFrameCtr = 0

/-- `fastHmacSHA256Stack`. -/
def fastHmacSHA256Stack (P : Primitives) (key data : Bytes) : Bytes :=
  let k := if key.length > 64 then zeroPad 64 (P.sha256 key) else zeroPad 64 key
  let innerHash := P.sha256 (k.map (· ^^^ 0x36) ++ data)
  P.sha256 (k.map (· ^^^ 0x5c) ++ innerHash)

/-- `maskFrameLen`; lengths are 32-bit numbers. -/
def maskFrameLen (P : Primitives) (key : Option Bytes) (ctr n : ℕ) : ℕ :=
  match key with
  | none => n
  | some key =>
    let msg := (ascii "obsidian_frame_v3").take 16 ++ putBE 8 ctr
    n ^^^ getBE ((fastHmacSHA256Stack P key msg).take 4)

def StreamFramer.paddingFor (f : StreamFramer) : PacketType → ℤ × ℤ
  | .data => (f.paddingCfg.dataMin, f.paddingCfg.dataMax)
  | .noise => (f.paddingCfg.noiseMin, f.paddingCfg.noiseMax)
  | .keepalive => (f.paddingCfg.keepaliveMin, f.paddingCfg.keepaliveMax)
  | _ => (16, 64)

/-- The padding bounds of one call: those of the type, or the bucket padding for data. -/
def StreamFramer.padBounds (f : StreamFramer) (ptype : PacketType) (payload : Bytes) (r : Draws) :
    ℤ × ℤ :=
  if ptype = .data ∧ f.paddingCfg.useBucketPadding then
    let padLen := calculateBucketPaddingWithTrailer payload.length f.paddingCfg.bucketMTU
      f.paddingCfg.maxTrailer r.trailer
    (padLen, padLen)
  else f.paddingFor ptype

section Frames

variable (P : Primitives)

/-- A packet behind its masked length; the frame counter is used up. -/
def StreamFramer.finishFrame (f : StreamFramer) (encoded : Except String Bytes × Cipher Bytes) :
    Except String Bytes × StreamFramer :=
  match encoded with
  | (.error err, c) => (.error err, { f with encCipher := c })
  | (.ok pkt, c) =>
    (.ok (putBE 4 (maskFrameLen P f.encFrameKey f.encFrameCtr pkt.length) ++ pkt),
      { f with encCipher := c, encFrameCtr := f.encFrameCtr + 1 })

def StreamFramer.frame (f : StreamFramer) (ptype : PacketType) (payload : Bytes) (r : Draws) :
    Except String Bytes × StreamFramer :=
  let (padMin, padMax) := f.padBounds ptype payload r
  f.finishFrame P (encodePacketWithHeaderProtection P f.encCipher f.encHeaderKey f.headerCfg ptype
    payload padMin padMax r)

/-- `FrameWithBuffer` on a destination of the given length: the bytes written. -/
def StreamFramer.frameWithBuffer (f : StreamFramer) (dstLen : ℕ) (ptype : PacketType)
    (payload : Bytes) (r : Draws) : Except String Bytes × StreamFramer :=
  let (padMin, padMax) := f.padBounds ptype payload r
  if dstLen < 4 then (.error "short buffer", f)
  else
    f.finishFrame P (encodePacketWithHeaderProtectionBuffer P (dstLen - 4) f.encCipher
      f.encHeaderKey f.headerCfg ptype payload padMin padMax r)

def StreamFramer.decodeFrameLen (f : StreamFramer) (masked : ℕ) : ℕ × StreamFramer :=
  (maskFrameLen P f.decFrameKey f.decFrameCtr masked, { f with decFrameCtr := f.decFrameCtr + 1 })

def StreamFramer.parseFrame (f : StreamFramer) (raw : Bytes) : Except String Packet × StreamFramer :=
  let r := decodePacketWithHeaderProtection P f.decCipher f.decHeaderKey f.headerCfg raw
  (r.1, { f with decCipher := r.2 })

/-- `ParseFrameInto`: the type, the length of the payload and the buffer afterwards. -/
def StreamFramer.parseFrameInto (f : StreamFramer) (dst raw : Bytes) :
    Except String (PacketType × ℕ × Bytes) × StreamFramer :=
  match readHeader P f.decHeaderKey f.headerCfg raw with
  | .error err => (.error err, f)
  | .ok head =>
    let opened := f.decCipher.decrypt P.suite head.ct head.aad
    let f := { f with decCipher := opened.2 }
    match opened.1 with
    | none => (.error "decrypt: chacha20poly1305: message authentication failed", f)
    | some plaintext =>
      -- a buffer that is too small only gets as much of the payload as it holds
      let written :=
        if dst.length < head.payLen + head.padLen then (plaintext.take head.payLen).take dst.length
        else plaintext
      (.ok (head.type, head.payLen, written ++ dst.drop written.length), f)

end Frames

/-! ## Packets decode -/

section Decode

variable {P : Primitives}

@[simp] theorem length_packetAAD (typeID : UInt32) (payLen padLen : ℕ) :
    (packetAAD typeID payLen padLen).length = packetHeaderSize := by
  simp [packetAAD, packetHeaderSize]

/-- Masking a header twice with the same sample gives it back. -/
theorem xorPacketHeader_ok (header : Bytes) (key : Option Bytes) (sample : Bytes)
    (hh : header.length = packetHeaderSize) (hs : 16 ≤ sample.length) :
    ∃ masked, xorPacketHeader P header key sample = .ok masked ∧
      masked.length = packetHeaderSize ∧
      ∀ sample', 16 ≤ sample'.length → sample'.take nonceSize = sample.take nonceSize →
        xorPacketHeader P masked key sample' = .ok header := by
  cases key with
  | none => exact ⟨header, rfl, hh, fun _ _ _ => rfl⟩
  | some key =>
    set mask := fill packetHeaderSize (P.chacha20 key (sample.take nonceSize)) with hmask
    have hlen : (xorBytes header mask).length = packetHeaderSize := by simp [hh, hmask]
    refine ⟨xorBytes header mask, ?_, hlen, fun sample' hs' heq => ?_⟩
    · simp [xorPacketHeader, hh, Nat.not_lt.mpr hs, hmask]
    · simp only [xorPacketHeader, hlen, ne_eq, not_true_eq_false, if_false, Nat.not_lt.mpr hs',
        heq, ← hmask]
      rw [xorBytes_xorBytes _ _ (by simp [hh, hmask])]

theorem slice_packetAAD (typeID : UInt32) (payLen padLen : ℕ) :
    slice (packetAAD typeID payLen padLen) 0 4 = putBE 4 typeID.toNat ∧
    slice (packetAAD typeID payLen padLen) 4 2 = putBE 2 payLen ∧
    slice (packetAAD typeID payLen padLen) 6 1 = putBE 1 padLen ∧
    slice (packetAAD typeID payLen padLen) 7 1 = putBE 1 obsidianVersion := by
  refine ⟨?_, ?_, ?_, ?_⟩ <;> simp [packetAAD, putBE, slice]

/-- **The receiver recovers the parts of a packet.** -/
theorem readHeader_append {hc : HeaderConfig} (hhc : hc.Decodable) {ptype : PacketType}
    {typeID : UInt32} {draw : ℕ} (hid : (hc.rangeFor ptype).pick draw = .ok typeID)
    {payLen padLen : ℕ} (hpay : payLen ≤ maxPayload) (hpad : padLen ≤ 255) {ct : Bytes}
    (hct : ct.length = payLen + padLen + tagSize) (headerKey : Option Bytes) :
    ∃ header, xorPacketHeader P (packetAAD typeID payLen padLen) headerKey (ct.take tagSize) =
        .ok header ∧ header.length = packetHeaderSize ∧
      readHeader P headerKey hc (header ++ ct) =
        .ok ⟨ptype, payLen, padLen, packetAAD typeID payLen padLen, ct⟩ := by
  have htag : 16 ≤ (ct.take tagSize).length := by
    rw [List.length_take, hct]; simp [tagSize]
  obtain ⟨header, hmask, hlen, hback⟩ :=
    xorPacketHeader_ok (P := P) (packetAAD typeID payLen padLen) headerKey (ct.take tagSize)
      (length_packetAAD _ _ _) htag
  refine ⟨header, hmask, hlen, ?_⟩
  have hunmask := hback ct (by rw [hct]; simp [tagSize]) (by
    rw [List.take_take]; rfl)
  obtain ⟨h0, h4, h6, h7⟩ := slice_packetAAD typeID payLen padLen
  have hdrop : (header ++ ct).drop packetHeaderSize = ct := by rw [← hlen, List.drop_left]
  have htake : (header ++ ct).take packetHeaderSize = header := by rw [← hlen, List.take_left]
  have hlong : ¬(header ++ ct).length < packetHeaderSize + tagSize := by
    rw [List.length_append, hlen, hct]; omega
  have hid' : UInt32.ofNat (getBE (putBE 4 typeID.toNat)) = typeID := by
    rw [getBE_putBE_of_lt (by have := typeID.toNat_lt; simpa using this)]
    simp
  have hpl : getBE (putBE 2 payLen) = payLen :=
    getBE_putBE_of_lt (by simp only [maxPayload] at hpay; omega)
  have hpd : getBE (putBE 1 padLen) = padLen := getBE_putBE_of_lt (by omega)
  have hver : getBE (putBE 1 obsidianVersion) = obsidianVersion := by decide
  simp only [readHeader, if_neg hlong, htake, hdrop, hunmask, h0, h4, h6, h7, hid', hpl, hpd, hver,
    hhc.roundTrip hid, hct, ne_eq, not_true_eq_false, if_false]

/-- The packet decodes to `p` under the receiving cipher `c`. -/
def Decodes (P : Primitives) (c : Cipher Bytes) (headerKey : Option Bytes) (hc : HeaderConfig)
    (pkt : Bytes) (p : Packet) : Prop :=
  ∃ head padding, readHeader P headerKey hc pkt = .ok head ∧
    (c.decrypt P.suite head.ct head.aad).1 = some (p.payload ++ padding) ∧
    head.type = p.type ∧ head.payLen = p.payload.length ∧ head.padLen = padding.length ∧
    head.payLen + head.padLen ≤ pkt.length

theorem Decodes.decode {c : Cipher Bytes} {headerKey : Option Bytes} {hc : HeaderConfig}
    {pkt : Bytes} {p : Packet} (h : Decodes P c headerKey hc pkt p) :
    decodePacketWithHeaderProtection P c headerKey hc pkt = (.ok p, c.next) := by
  obtain ⟨head, padding, hread, hopen, htype, hpay, -, -⟩ := h
  simp only [decodePacketWithHeaderProtection, hread, hopen]
  simp [hpay, htype, Cipher.decrypt]

theorem Decodes.parseFrame {f : StreamFramer} {pkt : Bytes} {p : Packet}
    (h : Decodes P f.decCipher f.decHeaderKey f.headerCfg pkt p) :
    f.parseFrame P pkt = (.ok p, { f with decCipher := f.decCipher.next }) := by
  simp only [StreamFramer.parseFrame, h.decode]

/-- With a buffer of the frame's size, `ParseFrameInto` leaves the payload at its start. -/
theorem Decodes.parseFrameInto {f : StreamFramer} {pkt dst : Bytes} {p : Packet}
    (h : Decodes P f.decCipher f.decHeaderKey f.headerCfg pkt p) (hdst : dst.length = pkt.length) :
    ∃ buf, f.parseFrameInto P dst pkt =
        (.ok (p.type, p.payload.length, buf), { f with decCipher := f.decCipher.next }) ∧
      buf.take p.payload.length = p.payload := by
  obtain ⟨head, padding, hread, hopen, htype, hpay, -, hlen⟩ := h
  have hbig : ¬dst.length < p.payload.length + head.padLen := by omega
  refine ⟨(p.payload ++ padding) ++ dst.drop (p.payload ++ padding).length, ?_, ?_⟩
  · simp only [StreamFramer.parseFrameInto, hread, hopen, if_neg hbig, htype, hpay]
    rfl
  · rw [List.append_assoc, List.take_left]

end Decode

/-! ## Encoding calls -/

section Encode

variable {P : Primitives}

/-- The padding bounds are non-negative, so that a padding size is drawn. -/
def GoodBounds (padMin padMax : ℤ) : Prop := 0 ≤ padMin ∧ (padMax ≤ padMin ∨ padMax < 2 ^ 63)

theorem padLength_ok {padMin padMax : ℤ} (h : GoodBounds padMin padMax) (draw : ℕ) :
    ∃ padLen, padLength padMin padMax draw = .ok padLen ∧
      (padLen : ℤ) ≤ maxPad padMin padMax ∧ padLen ≤ 255 := by
  obtain ⟨hmin, hmax⟩ := h
  have hnonneg : 0 ≤ maxPad padMin padMax := by
    unfold maxPad; simp only; split <;> split <;> omega
  have h255 : maxPad padMin padMax ≤ 255 := by
    unfold maxPad; simp only; split <;> omega
  obtain ⟨n, hn⟩ := (fastRandomPaddingInplace_isOk_iff (maxPad padMin padMax).toNat).mpr
    (sizeDrawn_of_nonneg hmin hmax draw)
  have hle := fastRandomPaddingInplace_le hn
  exact ⟨n, by rw [padLength, if_neg (by omega), hn], by omega, by omega⟩

/-- **What an encoding call does**: it fails and leaves the cipher alone when the payload is too
long or the buffer too short, and otherwise uses up one nonce for a packet that decodes. -/
theorem encode_cases (hP : P.AEADLawful) {hc : HeaderConfig} (hhc : hc.Decodable) (dstLen : ℕ)
    (c : Cipher Bytes) (headerKey : Option Bytes) (ptype : PacketType) (payload : Bytes)
    {padMin padMax : ℤ} {r : Draws} {padLen : ℕ} (hpad : padLength padMin padMax r.pad = .ok padLen)
    (h255 : padLen ≤ 255) :
    if payload.length ≤ maxPayload ∧ 24 + payload.length + padLen ≤ dstLen then
      ∃ pkt, encodePacketWithHeaderProtectionBuffer P dstLen c headerKey hc ptype payload padMin
          padMax r = (.ok pkt, c.next) ∧ pkt.length = 24 + payload.length + padLen ∧
        Decodes P c headerKey hc pkt ⟨ptype, payload⟩
    else ∃ err, encodePacketWithHeaderProtectionBuffer P dstLen c headerKey hc ptype payload padMin
        padMax r = (.error err, c) := by
  unfold encodePacketWithHeaderProtectionBuffer
  by_cases hlong : payload.length > maxPayload
  · rw [if_neg (by omega), if_pos hlong]
    exact ⟨_, rfl⟩
  have hplain : packetHeaderSize + (payload ++ fill padLen r.padding).length + tagSize =
      24 + payload.length + padLen := by
    simp [packetHeaderSize, tagSize]; omega
  simp only [if_neg hlong, hpad, hplain]
  by_cases hshort : dstLen < 24 + payload.length + padLen
  · rw [if_neg (by omega)]
    simp only [if_pos hshort]
    exact ⟨_, rfl⟩
  obtain ⟨typeID, hid⟩ := hhc.pick_ok ptype r.typeID
  set ct := P.aeadSeal c.key (c.nonce P.suite) (payload ++ fill padLen r.padding)
    (packetAAD typeID payload.length padLen) with hct
  have hctlen : ct.length = payload.length + padLen + tagSize := by
    rw [hct, hP.length_aeadSeal]; simp
  obtain ⟨header, hmask, hheader, hread⟩ := readHeader_append (P := P) hhc hid
    (by omega : payload.length ≤ maxPayload) h255 hctlen headerKey
  rw [if_pos (by omega)]
  have hlen : (header ++ ct).length = 24 + payload.length + padLen := by
    rw [List.length_append, hheader, hctlen]; simp [packetHeaderSize, tagSize]; omega
  refine ⟨header ++ ct, ?_, hlen, _, fill padLen r.padding, hread, ?_, rfl, rfl, by simp,
    by simp only [hlen]; omega⟩
  · have henc : c.encrypt P.suite (payload ++ fill padLen r.padding)
        (packetAAD typeID payload.length padLen) = (ct, c.next) := rfl
    simp only [if_neg hshort, hid, henc, hmask]
  · exact hP.aeadOpen_aeadSeal _ _ _ _

/-- The checks that come before `Seal` when a packet is encoded into a buffer. -/
def reachesSeal (dstLen : ℕ) (hc : HeaderConfig) (ptype : PacketType) (payload : Bytes)
    (padMin padMax : ℤ) (r : Draws) : Bool :=
  match padLength padMin padMax r.pad, (hc.rangeFor ptype).pick r.typeID with
  | .ok padLen, .ok _ => decide (payload.length ≤ maxPayload ∧
      packetHeaderSize + (payload.length + padLen) + tagSize ≤ dstLen)
  | _, _ => false

/-- **An encoding call takes a nonce exactly when it reaches `Seal`**, also if it fails later. -/
theorem encode_cipher (dstLen : ℕ) (c : Cipher Bytes) (headerKey : Option Bytes) (hc : HeaderConfig)
    (ptype : PacketType) (payload : Bytes) (padMin padMax : ℤ) (r : Draws) :
    (encodePacketWithHeaderProtectionBuffer P dstLen c headerKey hc ptype payload padMin padMax r).2 =
      if reachesSeal dstLen hc ptype payload padMin padMax r then c.next else c := by
  unfold encodePacketWithHeaderProtectionBuffer reachesSeal
  by_cases hlong : payload.length > maxPayload
  · rw [if_pos hlong, if_neg]
    split <;> simp [Nat.not_le.mpr hlong]
  rw [if_neg hlong]
  cases hpad : padLength padMin padMax r.pad with
  | error err => simp
  | ok padLen =>
    simp only [List.length_append, length_fill]
    by_cases hshort : dstLen < packetHeaderSize + (payload.length + padLen) + tagSize
    · rw [if_pos hshort]
      cases (hc.rangeFor ptype).pick r.typeID <;> simp [Nat.not_le.mpr hshort]
    rw [if_neg hshort]
    cases hid : (hc.rangeFor ptype).pick r.typeID with
    | error err => simp
    | ok typeID =>
      have hgo : payload.length ≤ maxPayload ∧
          packetHeaderSize + (payload.length + padLen) + tagSize ≤ dstLen :=
        ⟨Nat.not_lt.mp hlong, Nat.not_lt.mp hshort⟩
      simp only [hgo, and_self, decide_true, if_true]
      split <;> rfl

end Encode

end ObsidianVPN.Protocol
