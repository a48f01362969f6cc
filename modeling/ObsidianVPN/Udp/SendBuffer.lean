import ObsidianVPN.Lib.Buffer
import ObsidianVPN.Udp.RoundTrip

/-!
# Sending from a caller's buffer

`SendWithBuffer` builds the datagram in memory of the caller, after a check of its length that
counts the payload without its padding. `Seal` writes to a new array when the buffer is too small,
and the code behind it goes on with the old one.

* `writeDatagram`: the bytes of the buffer, step by step;
* **`writeDatagram_eq`**: with room for the ciphertext the buffer holds the datagram that
  `buildDatagram` describes; `writeDatagram_short`: without it the last cut fails;
* `UDPChannel.sendWithBufferChecked`: `SendWithBuffer`;
* **`sendWithBuffer_exact_iff`**: the payloads and buffers that pass the check and whose datagram is
  written whole.
-/

namespace ObsidianVPN.Udp

open ByteStr Buffer

/-- The end of `sendWithBuffer`: the STUN header and the cut to the length of the datagram. -/
def finishDatagram (cfg : UDPSettings) (msgType sealedLen : ℕ) (buf : Bytes) (r : SendDraws) :
    Option Bytes := do
  if cfg.enableSTUN then
    let bodyLen := (udpHeaderSize + sealedLen) % 2 ^ 16
    let buf ← writeAt buf 0 (writeSTUNHeader bodyLen msgType r.txID)
    readAt buf 0 (stunHeaderSize + bodyLen)
  else readAt buf 0 (udpHeaderSize + sealedLen)

section Memory

variable (U : UDPCiphers)

/-- `sendWithBuffer` behind the padding of the payload: the datagram it writes, or `none` for an
access that is out of range. -/
def writeDatagram (cfg : UDPSettings) (msgType : ℕ) (key hp : Bytes) (tag : Tag) (ctr : ℕ)
    (plain buf : Bytes) (r : SendDraws) : Option Bytes := do
  let off := cfg.placedOffset
  let buf ← writeAt buf off tag.bytes
  let buf ← writeAt buf (off + udpTagSize) (putBE udpCounterSize ctr)
  let aad ← readAt buf off udpHeaderSize
  let sealed := U.aeadSeal key (udpNonce ctr) plain aad
  let buf ← appendAt buf (off + udpHeaderSize) sealed
  let counterBuf ← readAt buf (off + udpTagSize) udpCounterSize
  let sample ← readAt buf (off + udpHeaderSize) 16
  let buf ← writeAt buf (off + udpTagSize) (protectCounter U hp counterBuf sample)
  finishDatagram cfg msgType sealed.length buf r

/-- `SendWithBuffer` on the bytes of the buffer. -/
def UDPChannel.sendWithBufferChecked (ch : UDPChannel) (payload buf : Bytes) (r : SendDraws) :
    Except String Bytes × UDPChannel :=
  if buf.length < requiredBuf payload then (.error "short buffer", ch)
  else
    let datagram := do
      let plain ← framePlain ch.settings payload r
      match writeDatagram U ch.settings 0x0001 ch.encAEAD ch.hp ch.tag ch.sendCtr plain buf r with
      | some datagram => .ok datagram
      | none => .error "runtime error: slice bounds out of range"
    (datagram, { ch with sendCtr := (ch.sendCtr + 1) % 2 ^ 64 })

end Memory

variable {U : UDPCiphers}

/-! ## The bytes of the buffer -/

/-- The steps before the STUN header, when `Seal` leaves `tail` behind the header. -/
theorem writeDatagram_of_append (cfg : UDPSettings) (msgType : ℕ) (key hp : Bytes) (tag : Tag)
    (ctr : ℕ) (plain : Bytes) (r : SendDraws) {front old0 old1 old2 tail : Bytes}
    (hfront : front.length = cfg.placedOffset) (h0 : old0.length = 4) (h1 : old1.length = 8)
    (happend : appendAt ((front ++ (tag.bytes ++ putBE udpCounterSize ctr)) ++ old2)
      (cfg.placedOffset + udpHeaderSize)
      (U.aeadSeal key (udpNonce ctr) plain (tag.bytes ++ putBE udpCounterSize ctr)) =
        some ((front ++ (tag.bytes ++ putBE udpCounterSize ctr)) ++ tail))
    (htail : 16 ≤ tail.length) :
    writeDatagram U cfg msgType key hp tag ctr plain (front ++ (old0 ++ (old1 ++ old2))) r =
      finishDatagram cfg msgType
        (U.aeadSeal key (udpNonce ctr) plain (tag.bytes ++ putBE udpCounterSize ctr)).length
        (front ++ (tag.bytes ++
          (protectCounter U hp (putBE udpCounterSize ctr) (tail.take 16) ++ tail))) r := by
  have hhead : (front ++ tag.bytes).length = cfg.placedOffset + udpTagSize := by
    rw [List.length_append, hfront]
    rfl
  have haad : (front ++ (tag.bytes ++ putBE udpCounterSize ctr)).length =
      cfg.placedOffset + udpHeaderSize := by
    rw [List.length_append, hfront, List.length_append, length_putBE]
    rfl
  have hwrite0 : writeAt (front ++ (old0 ++ (old1 ++ old2))) cfg.placedOffset tag.bytes =
      some (front ++ (tag.bytes ++ (old1 ++ old2))) := writeAt_middle hfront.symm h0
  have hwrite1 : writeAt (front ++ (tag.bytes ++ (old1 ++ old2))) (cfg.placedOffset + udpTagSize)
      (putBE udpCounterSize ctr) =
        some ((front ++ (tag.bytes ++ putBE udpCounterSize ctr)) ++ old2) := by
    rw [← List.append_assoc, writeAt_middle hhead.symm (by rw [h1, length_putBE]; rfl)]
    simp only [List.append_assoc]
  have hread0 : readAt ((front ++ (tag.bytes ++ putBE udpCounterSize ctr)) ++ old2)
      cfg.placedOffset udpHeaderSize = some (tag.bytes ++ putBE udpCounterSize ctr) := by
    rw [List.append_assoc, readAt_middle hfront.symm (by simp [udpHeaderSize, udpTagSize])]
  have hread1 : readAt ((front ++ (tag.bytes ++ putBE udpCounterSize ctr)) ++ tail)
      (cfg.placedOffset + udpTagSize) udpCounterSize = some (putBE udpCounterSize ctr) := by
    rw [← List.append_assoc, List.append_assoc _ _ tail,
      readAt_middle hhead.symm (by rw [length_putBE])]
  have hread2 : readAt ((front ++ (tag.bytes ++ putBE udpCounterSize ctr)) ++ tail)
      (cfg.placedOffset + udpHeaderSize) 16 = some (tail.take 16) := by
    nth_rewrite 1 [← List.take_append_drop 16 tail]
    rw [readAt_middle haad.symm (by rw [List.length_take]; omega)]
  have hwrite2 : writeAt ((front ++ (tag.bytes ++ putBE udpCounterSize ctr)) ++ tail)
      (cfg.placedOffset + udpTagSize)
      (protectCounter U hp (putBE udpCounterSize ctr) (tail.take 16)) =
        some (front ++ (tag.bytes ++
          (protectCounter U hp (putBE udpCounterSize ctr) (tail.take 16) ++ tail))) := by
    rw [← List.append_assoc, List.append_assoc _ _ tail,
      writeAt_middle hhead.symm (by rw [length_putBE, length_protectCounter]), List.append_assoc]
  simp only [writeDatagram, hwrite0, hwrite1, hread0, happend, hread1, hread2, hwrite2, bind,
    Option.bind]

theorem exists_split {b : Bytes} {n : ℕ} (h : n ≤ b.length) :
    ∃ x y : Bytes, b = x ++ y ∧ x.length = n ∧ y.length = b.length - n :=
  ⟨b.take n, b.drop n, (List.take_append_drop n b).symm, by rw [List.length_take]; omega,
    List.length_drop⟩

/-- The places of the tag, the counter and the rest in a buffer. -/
theorem exists_parts (cfg : UDPSettings) {buf : Bytes} (h : cfg.placedOffset + 12 ≤ buf.length) :
    ∃ front old0 old1 old2 : Bytes, buf = front ++ (old0 ++ (old1 ++ old2)) ∧
      front.length = cfg.placedOffset ∧ old0.length = 4 ∧ old1.length = 8 ∧
      old2.length = buf.length - (cfg.placedOffset + 12) := by
  obtain ⟨front, b, rfl, hfront, hb⟩ := exists_split (by omega : cfg.placedOffset ≤ buf.length)
  obtain ⟨old0, c, rfl, h0, hc⟩ := exists_split (by omega : 4 ≤ b.length)
  obtain ⟨old1, old2, rfl, h1, h2⟩ := exists_split (by omega : 8 ≤ c.length)
  exact ⟨front, old0, old1, old2, rfl, hfront, h0, h1, by omega⟩

/-- The cut of a buffer that holds the packet behind the place of the STUN header. -/
theorem finishDatagram_packet (cfg : UDPSettings) (msgType : ℕ) (r : SendDraws) {sealedLen : ℕ}
    {front packet rest : Bytes} (hfront : front.length = cfg.placedOffset)
    (hpacket : udpHeaderSize + sealedLen = packet.length) :
    finishDatagram cfg msgType sealedLen (front ++ (packet ++ rest)) r =
      some (if cfg.enableSTUN then
        writeSTUNHeader (packet.length % 2 ^ 16) msgType r.txID ++ packet.take (packet.length % 2 ^ 16)
      else packet) := by
  unfold finishDatagram UDPSettings.placedOffset at *
  rw [hpacket]
  cases hstun : cfg.enableSTUN with
  | false =>
    rw [hstun] at hfront
    rw [List.eq_nil_of_length_eq_zero hfront]
    exact readAt_start rfl
  | true =>
    rw [hstun] at hfront
    -- the length field of the header has 16 bits, and the datagram is cut to what it says
    have hcut := Nat.mod_le packet.length (2 ^ 16)
    set bodyLen := packet.length % 2 ^ 16
    have hwrite : writeAt (front ++ (packet ++ rest)) 0 (writeSTUNHeader bodyLen msgType r.txID) =
        some (writeSTUNHeader bodyLen msgType r.txID ++ (packet ++ rest)) :=
      writeAt_start (hfront.trans (length_writeSTUNHeader ..).symm)
    have hread : readAt (writeSTUNHeader bodyLen msgType r.txID ++ (packet ++ rest)) 0
        (stunHeaderSize + bodyLen) =
        some (writeSTUNHeader bodyLen msgType r.txID ++ packet.take bodyLen) := by
      have hsplit : writeSTUNHeader bodyLen msgType r.txID ++ (packet ++ rest) =
          (writeSTUNHeader bodyLen msgType r.txID ++ packet.take bodyLen) ++
            (packet.drop bodyLen ++ rest) := by
        rw [List.append_assoc, ← List.append_assoc (packet.take bodyLen), List.take_append_drop]
      rw [hsplit]
      refine readAt_start ?_
      rw [List.length_append, length_writeSTUNHeader, List.length_take, Nat.min_eq_left hcut]
    simp only [if_true, bind, Option.bind, hwrite, hread]

/-- The cut of a buffer that is shorter than the datagram. -/
theorem finishDatagram_short (cfg : UDPSettings) (msgType : ℕ) (r : SendDraws) {sealedLen : ℕ}
    {front body : Bytes} (hfront : front.length = cfg.placedOffset)
    (hbody : body.length < udpHeaderSize + sealedLen) (hsmall : udpHeaderSize + sealedLen < 2 ^ 16) :
    finishDatagram cfg msgType sealedLen (front ++ body) r = none := by
  unfold finishDatagram UDPSettings.placedOffset at *
  rw [Nat.mod_eq_of_lt hsmall]
  cases hstun : cfg.enableSTUN with
  | false =>
    rw [hstun] at hfront
    rw [List.eq_nil_of_length_eq_zero hfront]
    exact readAt_none (by rw [List.nil_append, zero_add]; exact hbody)
  | true =>
    rw [hstun] at hfront
    have hwrite : writeAt (front ++ body) 0
        (writeSTUNHeader (udpHeaderSize + sealedLen) msgType r.txID) =
        some (writeSTUNHeader (udpHeaderSize + sealedLen) msgType r.txID ++ body) :=
      writeAt_start (hfront.trans (length_writeSTUNHeader ..).symm)
    simp only [if_true, bind, Option.bind, hwrite]
    refine readAt_none ?_
    rw [List.length_append, length_writeSTUNHeader]
    omega

section Written

variable (cfg : UDPSettings) (msgType : ℕ) (key hp : Bytes) (tag : Tag) (ctr : ℕ) (plain : Bytes)
  (r : SendDraws)

/-- **With room for the ciphertext the buffer holds the datagram**, whatever was in it. -/
theorem writeDatagram_eq (hU : U.AEADLawful) {buf : Bytes}
    (hroom : cfg.placedOffset + (plain.length + 28) ≤ buf.length) :
    writeDatagram U cfg msgType key hp tag ctr plain buf r =
      some (if cfg.enableSTUN then
        writeSTUNHeader ((plain.length + 28) % 2 ^ 16) msgType r.txID ++
          (sealPacket U key hp tag ctr plain).take ((plain.length + 28) % 2 ^ 16)
      else sealPacket U key hp tag ctr plain) := by
  obtain ⟨front, old0, old1, b, hbuf, hfront, h0, h1, hb⟩ :=
    exists_parts cfg (by omega : cfg.placedOffset + 12 ≤ buf.length)
  obtain ⟨old2, rest, rfl, h2, -⟩ := exists_split (by omega : plain.length + 16 ≤ b.length)
  set aad := tag.bytes ++ putBE udpCounterSize ctr with haad
  set sealed := U.aeadSeal key (udpNonce ctr) plain aad with hsealed
  have hlen : sealed.length = plain.length + 16 := hU.length_aeadSeal _ _ _ _
  have htail : 16 ≤ (sealed ++ rest).length := by
    rw [List.length_append, hlen]
    omega
  have hfrontaad : (front ++ aad).length = cfg.placedOffset + udpHeaderSize := by
    rw [List.length_append, hfront, haad, List.length_append, length_putBE]
    rfl
  have hpacket := length_sealPacket hU key hp tag ctr plain
  have hparts : tag.bytes ++ (protectCounter U hp (putBE udpCounterSize ctr)
      ((sealed ++ rest).take 16) ++ (sealed ++ rest)) = sealPacket U key hp tag ctr plain ++ rest := by
    rw [List.take_append_of_le_length (by omega)]
    simp only [sealPacket, ← haad, ← hsealed, List.append_assoc]
  rw [hbuf, writeDatagram_of_append cfg msgType key hp tag ctr plain r hfront h0 h1
    (appendAt_middle hfrontaad.symm (h2.trans hlen.symm)) htail, hparts,
    finishDatagram_packet cfg msgType r hfront, hpacket]
  rw [hpacket, hlen]
  simp only [udpHeaderSize, udpTagSize, udpCounterSize]
  omega

/-- Without room the last cut of the buffer is out of range, unless the length field of the STUN
header overflows. -/
theorem writeDatagram_short (hU : U.AEADLawful) {buf : Bytes}
    (hheader : cfg.placedOffset + 28 ≤ buf.length)
    (hroom : buf.length < cfg.placedOffset + (plain.length + 28))
    (hsmall : plain.length + 28 < 2 ^ 16) :
    writeDatagram U cfg msgType key hp tag ctr plain buf r = none := by
  obtain ⟨front, old0, old1, old2, hbuf, hfront, h0, h1, h2⟩ :=
    exists_parts cfg (by omega : cfg.placedOffset + 12 ≤ buf.length)
  have hlen : (U.aeadSeal key (udpNonce ctr) plain
      (tag.bytes ++ putBE udpCounterSize ctr)).length = plain.length + 16 :=
    hU.length_aeadSeal _ _ _ _
  have hfrontaad : (front ++ (tag.bytes ++ putBE udpCounterSize ctr)).length =
      cfg.placedOffset + udpHeaderSize := by
    rw [List.length_append, hfront, List.length_append, length_putBE]
    rfl
  have hsum : udpHeaderSize + (plain.length + 16) = plain.length + 28 := by
    simp only [udpHeaderSize, udpTagSize, udpCounterSize]
    omega
  rw [hbuf, writeDatagram_of_append cfg msgType key hp tag ctr plain r hfront h0 h1
    (appendAt_short hfrontaad.symm (by omega)) (by omega), hlen]
  refine finishDatagram_short cfg msgType r hfront ?_ (hsum.trans_lt hsmall)
  rw [List.length_append, Tag.length_bytes, List.length_append, length_protectCounter, hsum,
    udpCounterSize]
  omega

/-- **The buffer refines the datagram of `buildDatagram`**, which knows only its capacity. -/
theorem writeDatagram_refines (hU : U.AEADLawful) {buf : Bytes}
    (hheader : cfg.placedOffset + 28 ≤ buf.length)
    (hfits : cfg.placedOffset + (plain.length + 28) ≤ buf.length ∨ plain.length + 28 < 2 ^ 16) :
    (match writeDatagram U cfg msgType key hp tag ctr plain buf r with
      | some datagram => .ok datagram
      | none => .error "runtime error: slice bounds out of range") =
    buildDatagram U cfg msgType key hp tag ctr plain buf.length r := by
  have hlen := length_sealPacket hU key hp tag ctr plain
  simp only [buildDatagram, hlen]
  by_cases hroom : cfg.placedOffset + (plain.length + 28) ≤ buf.length
  · rw [if_neg (Nat.not_lt.2 hroom), writeDatagram_eq cfg msgType key hp tag ctr plain r hU hroom]
    cases cfg.enableSTUN <;> rfl
  · rw [writeDatagram_short cfg msgType key hp tag ctr plain r hU hheader (by omega)
      (hfits.resolve_left hroom), if_pos (by omega)]

end Written

/-! ## The check of the length -/

/-- The datagram that a payload should be sent as: the STUN header if there is one, the packet, and
nothing else. -/
def ExactDatagram (U : UDPCiphers) (ch : UDPChannel) (payload : Bytes) (r : SendDraws)
    (datagram : Bytes) : Prop :=
  ∃ plain, framePlain ch.settings payload r = .ok plain ∧
    datagram = (if ch.settings.enableSTUN then
        writeSTUNHeader (plain.length + 28) 0x0001 r.txID else []) ++
      sealPacket U ch.encAEAD ch.hp ch.tag ch.sendCtr plain

/-- The payload goes out with its length in front and padding behind it. -/
def Padded (cfg : UDPSettings) (payloadLen draw : ℕ) : Prop :=
  cfg.useBucketPadding = true ∧ 0 < payloadLen ∧ totalPlain cfg payloadLen draw ≤ udpPlainBufCap

instance (cfg : UDPSettings) (payloadLen draw : ℕ) : Decidable (Padded cfg payloadLen draw) := by
  unfold Padded; infer_instance

/-- A padded payload has not overflown and fits into the buffer; another one is short enough for the
length field of the STUN header. -/
def SendFits (cfg : UDPSettings) (payloadLen bufLen draw : ℕ) : Prop :=
  if Padded cfg payloadLen draw then
    2 + (payloadLen : ℤ) ≤ totalPlain cfg payloadLen draw ∧
      cfg.placedOffset + totalPlain cfg payloadLen draw + 28 ≤ bufLen
  else cfg.enableSTUN = true → payloadLen + 28 < 2 ^ 16

instance (cfg : UDPSettings) (payloadLen bufLen draw : ℕ) :
    Decidable (SendFits cfg payloadLen bufLen draw) := by
  unfold SendFits; infer_instance

theorem framePlain_cases (cfg : UDPSettings) (payload : Bytes) (r : SendDraws) :
    if Padded cfg payload.length r.trailer then
      if 2 + (payload.length : ℤ) ≤ totalPlain cfg payload.length r.trailer then
        ∃ plain, framePlain cfg payload r = .ok plain ∧
          (plain.length : ℤ) = totalPlain cfg payload.length r.trailer ∧ plain.length ≤ 2048
      else framePlain cfg payload r = .error "runtime error: slice bounds out of range"
    else framePlain cfg payload r = .ok payload := by
  by_cases hpadded : Padded cfg payload.length r.trailer
  · rw [if_pos hpadded]
    obtain ⟨huse, hpos, hcap⟩ := hpadded
    simp only [framePlain, huse, gt_iff_lt, hpos, and_self, if_true, hcap]
    by_cases hover : totalPlain cfg payload.length r.trailer < 2 + payload.length
    · rw [if_neg (by omega), if_pos hover]
    · rw [if_pos (by omega), if_neg hover]
      refine ⟨_, rfl, ?_⟩
      rw [udpPlainBufCap] at hcap
      simp only [List.length_append, length_putBE, length_fill]
      omega
  · rw [if_neg hpadded, framePlain]
    simp only [Padded, not_and, not_le] at hpadded
    split
    · rename_i h
      simp only
      rw [if_neg (by have := hpadded h.1 h.2; omega)]
    · rfl

theorem placedOffset_le (cfg : UDPSettings) : cfg.placedOffset ≤ 20 := by
  unfold UDPSettings.placedOffset
  split <;> decide

theorem requiredBuf_eq (payload : Bytes) : requiredBuf payload = payload.length + 112 := by
  simp only [requiredBuf, stunHeaderSize, udpHeaderSize, udpTagSize, udpCounterSize, tagSize]
  omega

/-- A payload that goes out as it is leaves room in a buffer that has passed the check; a padded one
is short. -/
theorem room_or_small {cfg : UDPSettings} {payload plain : Bytes} {r : SendDraws} {bufLen : ℕ}
    (hbuf : requiredBuf payload ≤ bufLen) (hplain : framePlain cfg payload r = .ok plain) :
    cfg.placedOffset + (plain.length + 28) ≤ bufLen ∨ plain.length + 28 < 2 ^ 16 := by
  have hcases := framePlain_cases cfg payload r
  have hoff := placedOffset_le cfg
  rw [requiredBuf_eq] at hbuf
  split at hcases
  · split at hcases
    · obtain ⟨plain', hplain', -, hsmall⟩ := hcases
      rw [hplain, Except.ok.injEq] at hplain'
      subst hplain'
      exact .inr (by omega)
    · exact absurd (hplain.symm.trans hcases) (by simp)
  · rw [hplain, Except.ok.injEq] at hcases
    subst hcases
    exact .inl (by omega)

/-- **`SendWithBuffer` is `sendWithBuffer` on the capacity of the buffer** once the check is passed. -/
theorem sendWithBufferChecked_eq (hU : U.AEADLawful) (ch : UDPChannel) {payload buf : Bytes}
    (r : SendDraws) (hbuf : requiredBuf payload ≤ buf.length) :
    ch.sendWithBufferChecked U payload buf r = ch.sendWithBuffer U payload buf.length r := by
  have hoff := placedOffset_le ch.settings
  rw [UDPChannel.sendWithBufferChecked, if_neg (Nat.not_lt.2 hbuf), UDPChannel.sendWithBuffer]
  cases hplain : framePlain ch.settings payload r with
  | error err => rfl
  | ok plain =>
    refine congrArg (fun d => (d, _)) (writeDatagram_refines _ _ _ _ _ _ _ _ hU ?_
      (room_or_small hbuf hplain))
    rw [requiredBuf_eq] at hbuf
    omega

theorem exactDatagram_iff (hU : U.AEADLawful) {ch : UDPChannel} {payload plain : Bytes}
    {r : SendDraws} (hplain : framePlain ch.settings payload r = .ok plain) :
    ExactDatagram U ch payload r
      (if ch.settings.enableSTUN then
        writeSTUNHeader ((plain.length + 28) % 2 ^ 16) 0x0001 r.txID ++
          (sealPacket U ch.encAEAD ch.hp ch.tag ch.sendCtr plain).take ((plain.length + 28) % 2 ^ 16)
      else sealPacket U ch.encAEAD ch.hp ch.tag ch.sendCtr plain) ↔
    (ch.settings.enableSTUN = true → plain.length + 28 < 2 ^ 16) := by
  have hlen := length_sealPacket hU ch.encAEAD ch.hp ch.tag ch.sendCtr plain
  unfold ExactDatagram
  simp only [hplain, Except.ok.injEq, exists_eq_left']
  cases hstun : ch.settings.enableSTUN with
  | false => simp
  | true =>
    simp only [if_true, true_implies]
    constructor
    · intro h
      have hcut := congrArg List.length h
      simp only [List.length_append, length_writeSTUNHeader, List.length_take, hlen] at hcut
      have hmod := Nat.mod_lt (plain.length + 28) (by decide : 0 < 2 ^ 16)
      omega
    · intro hsmall
      rw [Nat.mod_eq_of_lt hsmall, List.take_of_length_le hlen.le]

/-- **The buffers that pass the check and hold the whole datagram.** -/
theorem sendWithBuffer_exact_iff (hU : U.AEADLawful) (ch : UDPChannel) (payload buf : Bytes)
    (r : SendDraws) (hbuf : requiredBuf payload ≤ buf.length) :
    (∃ datagram, (ch.sendWithBufferChecked U payload buf r).1 = .ok datagram ∧
      ExactDatagram U ch payload r datagram) ↔
    SendFits ch.settings payload.length buf.length r.trailer := by
  have hcases := framePlain_cases ch.settings payload r
  have hoff := placedOffset_le ch.settings
  rw [sendWithBufferChecked_eq hU ch r hbuf]
  rw [requiredBuf_eq] at hbuf
  -- what happens to a plaintext that has room, and to one that has not
  have hroom : ∀ plain, framePlain ch.settings payload r = .ok plain →
      ((∃ datagram, (ch.sendWithBuffer U payload buf.length r).1 = .ok datagram ∧
        ExactDatagram U ch payload r datagram) ↔
      ch.settings.placedOffset + (plain.length + 28) ≤ buf.length ∧
        (ch.settings.enableSTUN = true → plain.length + 28 < 2 ^ 16)) := by
    intro plain hplain
    have hlen := length_sealPacket hU ch.encAEAD ch.hp ch.tag ch.sendCtr plain
    rw [← exactDatagram_iff hU hplain]
    simp only [UDPChannel.sendWithBuffer, hplain, bind, Except.bind, buildDatagram, hlen]
    split
    · simp only [reduceCtorEq, false_and, exists_false, false_iff]
      omega
    · rename_i hfits
      simp only [Nat.not_lt.1 hfits, true_and]
      cases ch.settings.enableSTUN <;> simp
  unfold SendFits
  split at hcases
  · split at hcases
    · rename_i hpadded hover
      obtain ⟨plain, hplain, htotal, hsmall⟩ := hcases
      rw [hroom plain hplain, if_pos hpadded]
      omega
    · rename_i hpadded hover
      rw [if_pos hpadded]
      refine iff_of_false ?_ fun h => hover h.1
      simp only [UDPChannel.sendWithBuffer, hcases, bind, Except.bind]
      simp
  · rename_i hpadded
    rw [hroom payload hcases, if_neg hpadded]
    exact and_iff_right (by omega)

section Samples

/-- A channel with bucket padding. -/
def paddedChannel : UDPChannel :=
  { newUDPChannel (sampleKeys ⟨1, 2, 3, 4⟩) with settings := ⟨true, true, 1360, 0⟩ }

/-- A buffer that passes the check and has room for the padding. -/
theorem sendWithBuffer_large :
    requiredBuf (List.replicate 300 7) ≤ (List.replicate 560 (0xee : UInt8)).length ∧
    ∃ datagram, (paddedChannel.sendWithBufferChecked .sample (List.replicate 300 7)
        (List.replicate 560 0xee) sampleDraws).1 = .ok datagram ∧
      ExactDatagram .sample paddedChannel (List.replicate 300 7) sampleDraws datagram :=
  ⟨by decide +kernel, (sendWithBuffer_exact_iff UDPCiphers.sample_lawful _ _ _ _
    (by decide +kernel)).2 (by decide +kernel)⟩

/-- 300 bytes are padded to 512, and a buffer of 412 bytes that passes the check does not hold the
560 bytes of the datagram. -/
theorem sendWithBuffer_padding_panics :
    requiredBuf (List.replicate 300 7) = 412 ∧
    (paddedChannel.sendWithBufferChecked .sample (List.replicate 300 7) (List.replicate 412 0xee)
      sampleDraws).1 = .error "runtime error: slice bounds out of range" :=
  ⟨by decide +kernel, by decide +kernel⟩

end Samples

end ObsidianVPN.Udp
