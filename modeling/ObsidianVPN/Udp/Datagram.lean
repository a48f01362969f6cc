import ObsidianVPN.Crypto.Primitives
import ObsidianVPN.Protocol.Header
import ObsidianVPN.Udp.Mux

/-!
# UDP datagrams

A datagram is a 4-byte tag, an 8-byte counter masked with AES and an AEAD ciphertext, behind a STUN
header if STUN is enabled. The receiver guesses the header from the first bytes. With bucket
padding the plaintext carries its length in front, unless it does not fit the pooled buffer.

* `isSTUNHeader`, `isSRTPHeader`, `headerOffset`: the receiver's guess;
* `framePlain`, `buildDatagram`: the common part of the two `Send`s, on a scratch buffer of a given
  capacity;
* `packetData`, `openPacket`, `unframe`: the common part of `Recv` and `runOnConn`;
* **`headerOffset_buildDatagram_iff`**: when the guess is right;
* **`openPacket_sealPacket`**: a packet opens with the keys it was sealed with;
* **`unframe_framePlain_iff`**: when the plaintext gives the payload back.
-/

namespace ObsidianVPN.Udp

open ByteStr Protocol

def udpTagSize : ℕ := 4
def udpCounterSize : ℕ := 8
def udpHeaderSize : ℕ := udpTagSize + udpCounterSize
def stunMagicCookie : ℕ := 0x2112a442
def stunHeaderSize : ℕ := 20
def srtpHeaderSize : ℕ := 12

/-- The library functions `udp.go` calls: one block of AES-128 besides the AEAD. -/
structure UDPCiphers extends Primitives where
  aesEncrypt : (key block : Bytes) → Vector UInt8 16

def Tag.bytes (t : Tag) : Bytes := [t.b0, t.b1, t.b2, t.b3]

/-- The tag at the start of a packet. -/
def Tag.read (packet : Bytes) : Tag :=
  ⟨packet.getD 0 0, packet.getD 1 0, packet.getD 2 0, packet.getD 3 0⟩

@[simp] theorem Tag.length_bytes (t : Tag) : t.bytes.length = 4 := rfl

@[simp] theorem Tag.read_bytes_append (t : Tag) (rest : Bytes) : Tag.read (t.bytes ++ rest) = t := rfl

/-! ## Headers -/

def isSTUNHeader (b : Bytes) : Bool :=
  if b.length < stunHeaderSize then false
  else decide (b.getD 0 0 &&& 0xC0 = 0x00 ∧ getBE (slice b 4 4) = stunMagicCookie)

def isSRTPHeader (b : Bytes) : Bool :=
  if b.length < srtpHeaderSize then false
  else decide ((b.getD 0 0 = 0x80 ∨ b.getD 0 0 &&& 0xC0 = 0x80) ∧
    b.getD 1 0 &&& 0x7F ≥ 96 ∧ b.getD 1 0 &&& 0x7F ≤ 127)

/-- Where the receiver looks for the tag and the counter. -/
def headerOffset (datagram : Bytes) : ℕ :=
  if isSTUNHeader datagram then stunHeaderSize
  else if isSRTPHeader datagram then srtpHeaderSize
  else 0

/-- `writeSTUNHeader`, with the random transaction id as an argument. -/
def writeSTUNHeader (msgLen msgType txID : ℕ) : Bytes :=
  putBE 2 msgType ++ (putBE 2 msgLen ++ (putBE 4 stunMagicCookie ++ putBE 12 txID))

@[simp] theorem length_writeSTUNHeader (msgLen msgType txID : ℕ) :
    (writeSTUNHeader msgLen msgType txID).length = stunHeaderSize := by
  simp [writeSTUNHeader, stunHeaderSize]

/-- Message types whose first byte leaves the two upper bits clear. -/
theorem headerOffset_stun {msgType : ℕ} (htype : (putBE 2 msgType).getD 0 0 &&& 0xC0 = 0)
    (msgLen txID : ℕ) (body : Bytes) :
    headerOffset (writeSTUNHeader msgLen msgType txID ++ body) = stunHeaderSize := by
  have hlen : ¬(writeSTUNHeader msgLen msgType txID ++ body).length < stunHeaderSize := by
    rw [List.length_append, length_writeSTUNHeader]
    omega
  have hfirst : (writeSTUNHeader msgLen msgType txID ++ body).getD 0 0 = (putBE 2 msgType).getD 0 0 :=
    rfl
  have hcookie : getBE (slice (writeSTUNHeader msgLen msgType txID ++ body) 4 4) = stunMagicCookie := by
    have : writeSTUNHeader msgLen msgType txID ++ body = (putBE 2 msgType ++ putBE 2 msgLen) ++
        (putBE 4 stunMagicCookie ++ (putBE 12 txID ++ body)) := by
      simp only [writeSTUNHeader, List.append_assoc]
    rw [this, slice_middle _ _ _ (by simp) (by simp)]
    exact getBE_putBE_of_lt (by decide)
  rw [headerOffset, if_pos]
  simp only [isSTUNHeader, hlen, if_false, hfirst, htype, hcookie, and_self, decide_true]

/-! ## Settings -/

/-- The fields of `UDPChannel` and `UDPSession` that shape a datagram. -/
structure UDPSettings where
  enableSTUN : Bool
  useBucketPadding : Bool
  bucketMTU : ℤ
  maxTrailer : ℤ
  deriving DecidableEq

/-- The settings of the constructors. -/
def defaultUDPSettings : UDPSettings := ⟨true, false, 1360, 0⟩

def UDPSettings.placedOffset (cfg : UDPSettings) : ℕ := if cfg.enableSTUN then stunHeaderSize else 0

/-- The random values of one `Send`. -/
structure SendDraws where
  trailer : ℕ
  pad : ℕ → UInt8
  txID : ℕ

/-! ## Plaintexts -/

/-- The capacity of the buffers in `udpPlainBufPool`. -/
def udpPlainBufCap : ℕ := 2048

/-- `totalPlain`: the padded length, with its prefix. -/
def totalPlain (cfg : UDPSettings) (payloadLen draw : ℕ) : ℤ :=
  wrap64 (2 + payloadLen +
    calculateBucketPaddingWithTrailer (2 + payloadLen) cfg.bucketMTU cfg.maxTrailer draw)

/-- The plaintext of a datagram; a payload that does not fit the buffer goes out as it is. -/
def framePlain (cfg : UDPSettings) (payload : Bytes) (r : SendDraws) : Except String Bytes :=
  if cfg.useBucketPadding ∧ payload.length > 0 then
    let total := totalPlain cfg payload.length r.trailer
    if total ≤ udpPlainBufCap then
      if total < 2 + payload.length then .error "runtime error: slice bounds out of range"
      else
        .ok (putBE 2 payload.length ++ payload ++
          fill (total - (2 + payload.length)).toNat r.pad)
    else .ok payload
  else .ok payload

/-- The receiver's side of `framePlain`. -/
def unframe (useBucketPadding : Bool) (plain : Bytes) : Bytes :=
  if useBucketPadding ∧ plain.length ≥ 2 then
    let origLen := getBE (plain.take 2)
    if origLen > 0 ∧ origLen ≤ plain.length - 2 then slice plain 2 origLen else plain
  else plain

/-- The first two bytes could be the length of a part of what follows. -/
def LooksFramed (payload : Bytes) : Prop :=
  2 ≤ payload.length ∧ 0 < getBE (payload.take 2) ∧ getBE (payload.take 2) ≤ payload.length - 2

instance (payload : Bytes) : Decidable (LooksFramed payload) := by
  unfold LooksFramed; infer_instance

/-- The payload is sent with its length, or its first bytes do not look like one. -/
def Framable (cfg : UDPSettings) (payload : Bytes) (draw : ℕ) : Prop :=
  cfg.useBucketPadding = true →
    if totalPlain cfg payload.length draw ≤ udpPlainBufCap then
      2 + payload.length ≤ totalPlain cfg payload.length draw
    else ¬LooksFramed payload

instance (cfg : UDPSettings) (payload : Bytes) (draw : ℕ) : Decidable (Framable cfg payload draw) := by
  unfold Framable; infer_instance

theorem unframe_prefixed {payload : Bytes} (hne : payload ≠ []) (hlen : payload.length < 2 ^ 16)
    (pad : Bytes) :
    unframe true (putBE 2 payload.length ++ payload ++ pad) = payload := by
  have hpos := List.length_pos_iff.mpr hne
  have htake : (putBE 2 payload.length ++ payload ++ pad).take 2 = putBE 2 payload.length := by
    rw [List.append_assoc, List.take_left' (by simp)]
  have hval : getBE (putBE 2 payload.length) = payload.length :=
    getBE_putBE_of_lt (by norm_num; exact hlen)
  simp only [unframe, List.length_append, length_putBE, htake, hval, true_and]
  rw [if_pos (by omega), if_pos (by omega), List.append_assoc,
    slice_middle _ _ _ (by simp) rfl]

/-- A bare payload comes back unless it looks as if it had a length in front. -/
theorem unframe_eq_self_iff {payload : Bytes} :
    unframe true payload = payload ↔ ¬LooksFramed payload := by
  unfold unframe LooksFramed
  by_cases hlen : 2 ≤ payload.length
  · simp only [ge_iff_le, hlen, and_self, if_true, gt_iff_lt, true_and]
    split
    · rename_i h
      refine iff_of_false (fun heq => ?_) (by simp [h])
      have := congrArg List.length heq
      rw [length_slice (by omega)] at this
      omega
    · rename_i h
      simp [h]
  · simp [hlen]

/-- **The plaintext gives the payload back exactly when it is framable.** -/
theorem unframe_framePlain_iff (cfg : UDPSettings) {payload : Bytes} (hne : payload ≠ [])
    (hlen : payload.length < 2 ^ 16) (r : SendDraws) :
    (∃ plain, framePlain cfg payload r = .ok plain ∧ unframe cfg.useBucketPadding plain = payload) ↔
      Framable cfg payload r.trailer := by
  have hpos := List.length_pos_iff.mpr hne
  unfold framePlain Framable
  cases hpad : cfg.useBucketPadding with
  | false => simp [unframe]
  | true =>
    simp only [gt_iff_lt, hpos, and_self, if_true, true_implies]
    split
    · split
      · rename_i hshort
        exact iff_of_false (by simp) (by omega)
      · rename_i hfits
        refine iff_of_true ⟨_, rfl, unframe_prefixed hne hlen _⟩ (by omega)
    · simp [unframe_eq_self_iff]

/-! ## Packets -/

def udpNonce (ctr : ℕ) : Bytes := List.replicate 4 0 ++ putBE udpCounterSize ctr

section Ciphers

variable (U : UDPCiphers)

/-- The counter masked with the encrypted sample. -/
def protectCounter (hp counterBuf sample : Bytes) : Bytes :=
  xorBytes counterBuf ((U.aesEncrypt hp sample).toList.take udpCounterSize)

/-- Tag, masked counter and ciphertext. -/
def sealPacket (key hp : Bytes) (tag : Tag) (ctr : ℕ) (plain : Bytes) : Bytes :=
  let header := tag.bytes ++ putBE udpCounterSize ctr
  let sealed := U.aeadSeal key (udpNonce ctr) plain header
  tag.bytes ++ (protectCounter U hp (putBE udpCounterSize ctr) (sealed.take 16) ++ sealed)

/-- The part of the two `Send`s after the plaintext. `Seal` moves to a new array if the buffer has
no room for its result; the cut of the buffer to the length of the datagram then fails. -/
def buildDatagram (cfg : UDPSettings) (msgType : ℕ) (key hp : Bytes) (tag : Tag) (ctr : ℕ)
    (plain : Bytes) (bufCap : ℕ) (r : SendDraws) : Except String Bytes :=
  let packet := sealPacket U key hp tag ctr plain
  if bufCap < cfg.placedOffset + packet.length then
    .error "runtime error: slice bounds out of range"
  else if cfg.enableSTUN then
    let bodyLen := packet.length % 2 ^ 16
    .ok (writeSTUNHeader bodyLen msgType r.txID ++ packet.take bodyLen)
  else .ok packet

/-- The packet in a datagram, if it is long enough for a header and an AEAD tag. -/
def packetData (datagram : Bytes) : Option Bytes :=
  let offset := headerOffset datagram
  if datagram.length - offset < udpHeaderSize + tagSize then none else some (datagram.drop offset)

/-- The unmasked counter of a packet. -/
def packetCounter (hp packet : Bytes) : Bytes :=
  protectCounter U hp (slice packet udpTagSize udpCounterSize) (slice packet udpHeaderSize 16)

/-- The counter and the plaintext of a packet. -/
def openPacket (key hp packet : Bytes) : Option (ℕ × Bytes) :=
  let ctrBuf := packetCounter U hp packet
  let ctr := getBE ctrBuf
  let aad := (Tag.read packet).bytes ++ ctrBuf
  (U.aeadOpen key (udpNonce ctr) (packet.drop udpHeaderSize) aad).map fun plain => (ctr, plain)

end Ciphers

variable {U : UDPCiphers}

@[simp] theorem length_protectCounter (hp sample : Bytes) (ctr : ℕ) :
    (protectCounter U hp (putBE udpCounterSize ctr) sample).length = udpCounterSize := by
  simp [protectCounter, udpCounterSize]

theorem protectCounter_protectCounter (hp sample : Bytes) (ctr : ℕ) :
    protectCounter U hp (protectCounter U hp (putBE udpCounterSize ctr) sample) sample =
      putBE udpCounterSize ctr :=
  xorBytes_xorBytes _ _ (by simp [udpCounterSize])

/-- The masked counter that `Send` puts after the tag. -/
def sentCounter (U : UDPCiphers) (key hp : Bytes) (tag : Tag) (ctr : ℕ) (plain : Bytes) : Bytes :=
  protectCounter U hp (putBE udpCounterSize ctr)
    ((U.aeadSeal key (udpNonce ctr) plain (tag.bytes ++ putBE udpCounterSize ctr)).take 16)

@[simp] theorem length_sentCounter (key hp : Bytes) (tag : Tag) (ctr : ℕ) (plain : Bytes) :
    (sentCounter U key hp tag ctr plain).length = 8 :=
  length_protectCounter _ _ _

theorem sealPacket_eq (key hp : Bytes) (tag : Tag) (ctr : ℕ) (plain : Bytes) :
    sealPacket U key hp tag ctr plain = tag.bytes ++ (sentCounter U key hp tag ctr plain ++
      U.aeadSeal key (udpNonce ctr) plain (tag.bytes ++ putBE udpCounterSize ctr)) := rfl

theorem length_sealPacket (hU : U.AEADLawful) (key hp : Bytes) (tag : Tag) (ctr : ℕ)
    (plain : Bytes) : (sealPacket U key hp tag ctr plain).length = plain.length + 28 := by
  simp only [sealPacket_eq, List.length_append, Tag.length_bytes, length_sentCounter,
    hU.length_aeadSeal, tagSize]
  omega

@[simp] theorem read_sealPacket (key hp : Bytes) (tag : Tag) (ctr : ℕ) (plain : Bytes) :
    Tag.read (sealPacket U key hp tag ctr plain) = tag := rfl

/-- The receiver finds the counter with the key it was masked with. -/
theorem packetCounter_sealPacket (key hp : Bytes) (tag : Tag) (ctr : ℕ)
    (plain : Bytes) :
    packetCounter U hp (sealPacket U key hp tag ctr plain) = putBE udpCounterSize ctr := by
  have hctr : slice (sealPacket U key hp tag ctr plain) udpTagSize udpCounterSize =
      sentCounter U key hp tag ctr plain :=
    slice_middle _ _ _ rfl (length_sentCounter ..).symm
  have hsample : slice (sealPacket U key hp tag ctr plain) udpHeaderSize 16 =
      (U.aeadSeal key (udpNonce ctr) plain (tag.bytes ++ putBE udpCounterSize ctr)).take 16 := by
    rw [sealPacket_eq, ← List.append_assoc, slice_append_right]
    simp [udpHeaderSize, udpTagSize, udpCounterSize]
  rw [packetCounter, hctr, hsample]
  exact protectCounter_protectCounter hp _ ctr

theorem drop_sealPacket (key hp : Bytes) (tag : Tag) (ctr : ℕ) (plain : Bytes) :
    (sealPacket U key hp tag ctr plain).drop udpHeaderSize =
      U.aeadSeal key (udpNonce ctr) plain (tag.bytes ++ putBE udpCounterSize ctr) := by
  rw [sealPacket_eq, ← List.append_assoc]
  exact List.drop_left' (by simp [udpHeaderSize, udpTagSize, udpCounterSize])

/-- **A packet opens with the keys it was sealed with.** -/
theorem openPacket_sealPacket (hU : U.AEADLawful) (key hp : Bytes) (tag : Tag) {ctr : ℕ}
    (hctr : ctr < 2 ^ 64) (plain : Bytes) :
    openPacket U key hp (sealPacket U key hp tag ctr plain) = some (ctr, plain) := by
  have hget : getBE (putBE udpCounterSize ctr) = ctr :=
    getBE_putBE_of_lt (by simpa [udpCounterSize] using hctr)
  simp only [openPacket, packetCounter_sealPacket, hget, read_sealPacket, drop_sealPacket,
    hU.aeadOpen_aeadSeal, Option.map_some]

/-! ## The receiver's guess -/

/-- A packet without a STUN header that the receiver takes for a STUN or SRTP message. -/
def LooksEncapsulated (tag : Tag) (maskedCounter : Bytes) : Prop :=
  (tag.b0 &&& 0xC0 = 0x00 ∧ getBE (maskedCounter.take 4) = stunMagicCookie) ∨
  (tag.b0 &&& 0xC0 = 0x80 ∧ tag.b1 &&& 0x7F ≥ 96)

instance (tag : Tag) (maskedCounter : Bytes) : Decidable (LooksEncapsulated tag maskedCounter) := by
  unfold LooksEncapsulated; infer_instance

theorem isSTUNHeader_sealPacket (hU : U.AEADLawful) (key hp : Bytes) (tag : Tag) (ctr : ℕ)
    (plain : Bytes) :
    isSTUNHeader (sealPacket U key hp tag ctr plain) = true ↔
      tag.b0 &&& 0xC0 = 0x00 ∧
        getBE ((sentCounter U key hp tag ctr plain).take 4) = stunMagicCookie := by
  have hlen := length_sealPacket hU key hp tag ctr plain
  have hslice : slice (sealPacket U key hp tag ctr plain) 4 4 =
      (sentCounter U key hp tag ctr plain).take 4 := by
    rw [sealPacket_eq, slice_append_right _ _ _ _ (by simp),
      List.take_append_of_le_length (by simp)]
  have hfirst : (sealPacket U key hp tag ctr plain).getD 0 0 = tag.b0 := rfl
  rw [isSTUNHeader, if_neg (by rw [hlen, stunHeaderSize]; omega), decide_eq_true_iff, hslice, hfirst]

theorem isSRTPHeader_sealPacket (hU : U.AEADLawful) (key hp : Bytes) (tag : Tag) (ctr : ℕ)
    (plain : Bytes) :
    isSRTPHeader (sealPacket U key hp tag ctr plain) = true ↔
      tag.b0 &&& 0xC0 = 0x80 ∧ tag.b1 &&& 0x7F ≥ 96 := by
  have hlen := length_sealPacket hU key hp tag ctr plain
  have hfirst : (sealPacket U key hp tag ctr plain).getD 0 0 = tag.b0 := rfl
  have hsecond : (sealPacket U key hp tag ctr plain).getD 1 0 = tag.b1 := rfl
  -- two of the source's comparisons say nothing new
  have hbits : tag.b0 = 0x80 ∨ tag.b0 &&& 0xC0 = 0x80 ↔ tag.b0 &&& 0xC0 = 0x80 :=
    or_iff_right_of_imp fun h => by rw [h]; decide
  have htop : tag.b1 &&& 0x7F ≤ 127 := by
    rw [UInt8.le_iff_toNat_le, UInt8.toNat_and]
    exact Nat.and_le_right
  rw [isSRTPHeader, if_neg (by rw [hlen, srtpHeaderSize]; omega), decide_eq_true_iff, hfirst, hsecond,
    hbits]
  simp only [htop, and_true]

/-- **The receiver finds the header where it was put, unless STUN is off and the tag or the masked
counter imitate another protocol.** -/
theorem headerOffset_buildDatagram_iff (hU : U.AEADLawful) {cfg : UDPSettings} {msgType : ℕ}
    (htype : (putBE 2 msgType).getD 0 0 &&& 0xC0 = 0) {key hp : Bytes} {tag : Tag} {ctr : ℕ}
    {plain : Bytes} {bufCap : ℕ} {r : SendDraws} {d : Bytes}
    (hd : buildDatagram U cfg msgType key hp tag ctr plain bufCap r = .ok d) :
    headerOffset d = cfg.placedOffset ↔
      cfg.enableSTUN = true ∨ ¬LooksEncapsulated tag (sentCounter U key hp tag ctr plain) := by
  unfold buildDatagram at hd
  simp only at hd
  split at hd
  · exact absurd hd (by simp)
  · split at hd
    · rename_i hstun
      obtain rfl := Except.ok.inj hd
      rw [headerOffset_stun htype]
      simp [UDPSettings.placedOffset, hstun]
    · rename_i hstun
      obtain rfl := Except.ok.inj hd
      simp only [UDPSettings.placedOffset, hstun, Bool.false_eq_true, if_false, false_or,
        LooksEncapsulated, headerOffset, isSTUNHeader_sealPacket hU, isSRTPHeader_sealPacket hU,
        not_or]
      split
      · rename_i h
        simp [h, stunHeaderSize]
      · rename_i h
        split
        · rename_i h'
          simp [h', srtpHeaderSize]
        · rename_i h'
          simp only [true_iff]
          exact ⟨h, h'⟩

end ObsidianVPN.Udp
