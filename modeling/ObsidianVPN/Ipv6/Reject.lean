import ObsidianVPN.Lib.Buffer

/-!
# Local rejection of IPv6 packets

An IPv6 packet that the tunnel cannot carry is answered locally: a TCP segment with a reset, anything
else with an ICMPv6 error that quotes it. Some packets must never be answered.

* `buildIPv6Reject`: the reply that is written into a buffer; `reject`: the reply itself;
* `Chain`: the headers in front of the upper-layer message; `MustNotAnswer`;
* `WellFormedReply`, `ResetFor`: what a reply has to look like; `writeReply_spec`;
* `Answerable`: the packets that are answered, and how; `reject_cases`;
* **`rejectCorrect_iff`**: the replies are always right and never answered in turn; a packet that must
  not be answered is answered exactly if its destination is unspecified, or if it is a message behind
  a fragment header.
-/

namespace ObsidianVPN.Ipv6

open ByteStr Checksum

/-! ## The source -/

def ipv6HeaderLen : ℕ := 40
def ipv6MinMTU : ℕ := 1280
def icmpv6DestUnreach : UInt8 := 1
def icmpv6CodeAdmin : UInt8 := 1
def icmpv6QuoteMax : ℕ := ipv6MinMTU - ipv6HeaderLen - 8
def ipv6NextTCP : UInt8 := 6
def ipv6NextICMPv6 : UInt8 := 58
def tcpFlagFIN : UInt8 := 0x01
def tcpFlagSYN : UInt8 := 0x02
def tcpFlagRST : UInt8 := 0x04
def tcpFlagACK : UInt8 := 0x10
def ipv6RejectBufSize : ℕ := ipv6MinMTU

def isAllZero (b : Bytes) : Bool := b.all (· == 0)

def onesSum (b : Bytes) (sum : ℕ) : ℕ := addWords sum b

def ipv6Checksum (src dst : Bytes) (nextHeader : UInt8) (seg : Bytes) : ℕ :=
  let sum := onesSum src 0
  let sum := onesSum dst sum
  let l := seg.length % 2 ^ 32
  let sum := (sum + l / 2 ^ 16) % 2 ^ 32
  let sum := (sum + l % 2 ^ 16) % 2 ^ 32
  let sum := (sum + nextHeader.toNat) % 2 ^ 32
  let sum := onesSum seg sum
  65535 - fold sum

/-- The bytes that `writeIPv6Header` writes. -/
def ipv6Header (src dst : Bytes) (payloadLen : ℕ) (nextHeader : UInt8) : Bytes :=
  [0x60, 0, 0, 0] ++ (putBE 2 payloadLen ++ ([nextHeader, 64] ++ (src ++ dst)))

def writeIPv6Header (out src dst : Bytes) (payloadLen : ℕ) (nextHeader : UInt8) : Bytes :=
  patch out 0 (ipv6Header src dst payloadLen nextHeader)

/-- The end of both builders: the header, the segment with a zero checksum, and the checksum at the
offset `k` of the segment. -/
def writeReply (out src dst : Bytes) (nextHeader : UInt8) (seg : Bytes) (k : ℕ) : Bytes × ℕ :=
  let n := ipv6HeaderLen + seg.length
  let out := writeIPv6Header out src dst seg.length nextHeader
  let out := patch out ipv6HeaderLen seg
  let cs := ipv6Checksum (slice out 8 16) (slice out 24 16) nextHeader
    (slice out ipv6HeaderLen seg.length)
  (patch out (ipv6HeaderLen + k) (putBE 2 cs), n)

section Build

variable (pkt : Bytes)

/-- The loop over the extension headers: hop-by-hop, routing and destination options. -/
def walkHeaders (nh : UInt8) (off : ℕ) : Option (UInt8 × ℕ) :=
  if nh = 0 ∨ nh = 43 ∨ nh = 60 then
    if pkt.length < off + 2 then none
    else if off + ((pkt.getD (off + 1) 0).toNat + 1) * 8 > pkt.length then none
    else walkHeaders (pkt.getD off 0) (off + ((pkt.getD (off + 1) 0).toNat + 1) * 8)
  else some (nh, off)
termination_by pkt.length - off

/-- The TCP header length that the segment at `off` states. -/
def doff (off : ℕ) : ℕ := (pkt.getD (off + 12) 0 >>> 4).toNat * 4

/-- The header of a reset, with a zero checksum. -/
def resetSegment (sport dport rseq rack : ℕ) (rflags : UInt8) : Bytes :=
  putBE 2 sport ++ (putBE 2 dport ++ (putBE 4 rseq ++ (putBE 4 rack ++
    [(5 : UInt8) <<< 4, rflags, 0, 0, 0, 0, 0, 0])))

def buildTCPReset (off : ℕ) (src dst out : Bytes) : Option (Bytes × ℕ) :=
  if pkt.length < off + 20 then none
  else if doff pkt off < 20 ∨ pkt.length < off + doff pkt off then none
  else
    let flags := pkt.getD (off + 13) 0
    if flags &&& tcpFlagRST ≠ 0 then none
    else
      let segSeq := getBE (slice pkt (off + 4) 4)
      let segAck := getBE (slice pkt (off + 8) 4)
      let stop := ipv6HeaderLen + getBE (slice pkt 4 2)
      let stop := if stop > pkt.length then pkt.length else stop
      let segLen := if (stop : ℤ) - off - doff pkt off > 0 then stop - off - doff pkt off else 0
      let segLen := if flags &&& tcpFlagSYN ≠ 0 then segLen + 1 else segLen
      let segLen := if flags &&& tcpFlagFIN ≠ 0 then segLen + 1 else segLen
      let rseq := if flags &&& tcpFlagACK ≠ 0 then segAck else 0
      let rack := if flags &&& tcpFlagACK ≠ 0 then 0 else (segSeq + segLen) % 2 ^ 32
      let rflags := if flags &&& tcpFlagACK ≠ 0 then tcpFlagRST else tcpFlagRST ||| tcpFlagACK
      let sport := getBE (slice pkt (off + 2) 2)
      let dport := getBE (slice pkt off 2)
      some (writeReply out dst src ipv6NextTCP (resetSegment sport dport rseq rack rflags) 16)

/-- An ICMPv6 error of the type "destination unreachable", with a zero checksum. -/
def unreachSegment (code : UInt8) (quote : ℕ) : Bytes :=
  [icmpv6DestUnreach, code, 0, 0, 0, 0, 0, 0] ++ pkt.take quote

def buildICMPv6Unreach (src dst out : Bytes) : Bytes × ℕ :=
  let quote := if pkt.length > icmpv6QuoteMax then icmpv6QuoteMax else pkt.length
  writeReply out dst src ipv6NextICMPv6 (unreachSegment pkt icmpv6CodeAdmin quote) 2

/-- The buffer afterwards and the length of the reply; `none` is `ok = false`. -/
def buildIPv6Reject (out : Bytes) : Option (Bytes × ℕ) :=
  if pkt.length < ipv6HeaderLen ∨ pkt.getD 0 0 >>> 4 ≠ 6 ∨ out.length < ipv6RejectBufSize then none
  else
    let src := slice pkt 8 16
    let dst := slice pkt 24 16
    if dst.getD 0 0 = 0xff ∨ src.getD 0 0 = 0xff ∨ isAllZero src then none
    else
      match walkHeaders pkt (pkt.getD 6 0) ipv6HeaderLen with
      | none => none
      | some (nh, off) =>
        if nh = ipv6NextTCP then buildTCPReset pkt off src dst out
        else if nh = ipv6NextICMPv6 ∧ pkt.length > off ∧ pkt.getD off 0 < 128 then none
        else some (buildICMPv6Unreach pkt src dst out)

/-- The reply, `out[:n]`. -/
def reject (out : Bytes) : Option Bytes := (buildIPv6Reject pkt out).map fun r => r.1.take r.2

end Build

/-! ## What must not be answered -/

/-- The headers that precede a message: from the header `nh` at `off` to the message `nh'` at `off'`.
Only the first fragment of a packet has the message behind its fragment header. -/
inductive Chain (pkt : Bytes) : UInt8 → ℕ → UInt8 → ℕ → Prop where
  | message (nh : UInt8) (off : ℕ) : Chain pkt nh off nh off
  | options {nh nh' : UInt8} {off off' : ℕ} (hnh : nh = 0 ∨ nh = 43 ∨ nh = 60)
      (hlen : off + 2 ≤ pkt.length)
      (rest : Chain pkt (pkt.getD off 0) (off + ((pkt.getD (off + 1) 0).toNat + 1) * 8) nh' off') :
      Chain pkt nh off nh' off'
  | fragment {nh' : UInt8} {off off' : ℕ} (hlen : off + 8 ≤ pkt.length)
      (hfirst : getBE (slice pkt (off + 2) 2) / 8 = 0)
      (rest : Chain pkt (pkt.getD off 0) (off + 8) nh' off') : Chain pkt 44 off nh' off'

section Rules

variable (pkt : Bytes)

def Multicast (address : Bytes) : Prop := address.getD 0 0 = 0xff

def Unspecified (address : Bytes) : Prop := ∀ x ∈ address, x = 0

def IsICMPv6Error : Prop := ∃ off, Chain pkt (pkt.getD 6 0) ipv6HeaderLen ipv6NextICMPv6 off ∧
  off < pkt.length ∧ pkt.getD off 0 < 128

def IsTCPReset : Prop := ∃ off, Chain pkt (pkt.getD 6 0) ipv6HeaderLen ipv6NextTCP off ∧
  off + 13 < pkt.length ∧ pkt.getD (off + 13) 0 &&& tcpFlagRST ≠ 0

/-- What the comment of the source rules out. -/
def MustNotAnswer : Prop :=
  Multicast (slice pkt 8 16) ∨ Unspecified (slice pkt 8 16) ∨ Multicast (slice pkt 24 16) ∨
    Unspecified (slice pkt 24 16) ∨ IsICMPv6Error pkt ∨ IsTCPReset pkt

end Rules

/-! ## Replies -/

/-- The pseudo-header of RFC 8200. -/
def pseudoHeader (src dst : Bytes) (len : ℕ) (nextHeader : UInt8) : Bytes :=
  src ++ (dst ++ (putBE 4 len ++ [0, 0, 0, nextHeader]))

/-- An IPv6 packet back to the sender, with the right length and upper-layer checksum. -/
structure WellFormedReply (pkt reply : Bytes) : Prop where
  length_ge : ipv6HeaderLen ≤ reply.length
  length_le : reply.length ≤ ipv6MinMTU
  version : reply.getD 0 0 >>> 4 = 6
  payloadLen : ipv6HeaderLen + getBE (slice reply 4 2) = reply.length
  source : slice reply 8 16 = slice pkt 24 16
  destination : slice reply 24 16 = slice pkt 8 16
  checksum : fold (wordSum (pseudoHeader (slice reply 8 16) (slice reply 24 16)
    (reply.length - ipv6HeaderLen) (reply.getD 6 0) ++ reply.drop ipv6HeaderLen)) = 65535

/-- The length of the segment at `off` in sequence numbers. -/
def segmentLength (pkt : Bytes) (off : ℕ) : ℕ :=
  min (ipv6HeaderLen + getBE (slice pkt 4 2)) pkt.length - (off + doff pkt off) +
    (if pkt.getD (off + 13) 0 &&& tcpFlagSYN ≠ 0 then 1 else 0) +
    (if pkt.getD (off + 13) 0 &&& tcpFlagFIN ≠ 0 then 1 else 0)

/-- The reset of RFC 793 for the segment at `off`. -/
structure ResetFor (pkt : Bytes) (off : ℕ) (reply : Bytes) : Prop where
  length_eq : reply.length = ipv6HeaderLen + 20
  sourcePort : getBE (slice reply 40 2) = getBE (slice pkt (off + 2) 2)
  destinationPort : getBE (slice reply 42 2) = getBE (slice pkt off 2)
  seq : getBE (slice reply 44 4) =
    if pkt.getD (off + 13) 0 &&& tcpFlagACK ≠ 0 then getBE (slice pkt (off + 8) 4) else 0
  ack : getBE (slice reply 48 4) = if pkt.getD (off + 13) 0 &&& tcpFlagACK ≠ 0 then 0
    else (getBE (slice pkt (off + 4) 4) + segmentLength pkt off) % 2 ^ 32
  flags : reply.getD 53 0 = if pkt.getD (off + 13) 0 &&& tcpFlagACK ≠ 0 then tcpFlagRST
    else tcpFlagRST ||| tcpFlagACK

/-- The error that quotes the packet. -/
structure UnreachableFor (pkt reply : Bytes) (code : UInt8) (quote : ℕ) : Prop where
  type_eq : reply.getD 40 0 = icmpv6DestUnreach
  code_eq : reply.getD 41 0 = code
  quoted : reply.drop 48 = pkt.take quote

/-! ## Checksums -/

section Checksum

variable {src dst seg : Bytes} (hsrc : src.length = 16) (hdst : dst.length = 16)
  (hseg : seg.length < 65536) (nh : UInt8)

include hsrc hdst hseg

theorem wordSum_pseudoHeader_append (b : Bytes) :
    wordSum (pseudoHeader src dst seg.length nh ++ b) =
      wordSum src + wordSum dst + seg.length + nh.toNat + wordSum b := by
  have hnh : wordSum [0, 0, 0, nh] = nh.toNat := by simp [wordSum]
  simp only [pseudoHeader, List.append_assoc]
  rw [wordSum_append _ _ (by omega), wordSum_append _ _ (by omega), wordSum_append _ _ (by simp),
    wordSum_append _ _ (by simp), wordSum_putBE_four hseg, hnh]
  omega

/-- The sum does not overflow. -/
theorem ipv6Checksum_eq : ipv6Checksum src dst nh seg =
    65535 - fold (wordSum src + wordSum dst + seg.length + nh.toNat + wordSum seg) := by
  have hle := wordSum_le src
  have hle' := wordSum_le dst
  have hle'' := wordSum_le seg
  have hnh := nh.toNat_lt
  have hlen : seg.length % 2 ^ 32 = seg.length := Nat.mod_eq_of_lt (by omega)
  have hhigh : seg.length / 2 ^ 16 = 0 := Nat.div_eq_of_lt hseg
  have hlow : seg.length % 2 ^ 16 = seg.length := Nat.mod_eq_of_lt hseg
  simp only [ipv6Checksum, onesSum, hlen, hhigh, hlow, Nat.add_zero]
  rw [addWords_eq 0 src (by omega), Nat.zero_add, addWords_eq _ dst (by omega),
    Nat.mod_eq_of_lt (by omega), Nat.mod_eq_of_lt (by omega), Nat.mod_eq_of_lt (by omega),
    addWords_eq _ seg (by omega)]

/-- **The segment with its checksum verifies.** -/
theorem fold_ipv6Checksum {k : ℕ} (hk : k + 2 ≤ seg.length) (heven : k % 2 = 0)
    (hzero : slice seg k 2 = [0, 0]) :
    fold (wordSum (pseudoHeader src dst seg.length nh ++
      patch seg k (putBE 2 (ipv6Checksum src dst nh seg)))) = 65535 := by
  have hpatch : patch seg k [0, 0] = seg := by rw [← hzero, patch_slice hk]
  rw [wordSum_pseudoHeader_append hsrc hdst hseg, ipv6Checksum_eq hsrc hdst hseg]
  have h := fold_checksum (wordSum src + wordSum dst + seg.length + nh.toNat) hk heven
  rwa [hpatch] at h

end Checksum

/-! ## The header of a reply -/

section Header

variable {src dst : Bytes} (hsrc : src.length = 16) (hdst : dst.length = 16) (len : ℕ) (nh : UInt8)

include hsrc hdst

theorem length_ipv6Header : (ipv6Header src dst len nh).length = ipv6HeaderLen := by
  simp [ipv6Header, hsrc, hdst, ipv6HeaderLen]

theorem slice_ipv6Header :
    slice (ipv6Header src dst len nh) 4 2 = putBE 2 len ∧
    slice (ipv6Header src dst len nh) 8 16 = src ∧
    slice (ipv6Header src dst len nh) 24 16 = dst := by
  refine ⟨slice_middle _ _ _ rfl (by simp), ?_, ?_⟩
  · have hassoc : ipv6Header src dst len nh =
        ([0x60, 0, 0, 0] ++ putBE 2 len ++ [nh, 64]) ++ (src ++ dst) := by simp [ipv6Header]
    rw [hassoc]
    exact slice_middle _ _ _ (by simp) hsrc.symm
  · have hassoc : ipv6Header src dst len nh =
        ([0x60, 0, 0, 0] ++ putBE 2 len ++ [nh, 64] ++ src) ++ (dst ++ []) := by simp [ipv6Header]
    rw [hassoc]
    exact slice_middle _ _ _ (by simp [hsrc]) hdst.symm

omit hsrc hdst in
variable (src dst) in
theorem getD_ipv6Header :
    (ipv6Header src dst len nh).getD 0 0 = 0x60 ∧ (ipv6Header src dst len nh).getD 6 0 = nh := by
  refine ⟨rfl, ?_⟩
  obtain ⟨x, y, hxy⟩ := List.length_eq_two.mp (length_putBE 2 len)
  rw [ipv6Header, hxy]
  rfl

/-- **A header and a segment that verifies.** -/
theorem wellFormedReply_append {pkt seg : Bytes} (hpkt : src = slice pkt 24 16)
    (hpkt' : dst = slice pkt 8 16) (hlen : seg.length ≤ ipv6MinMTU - ipv6HeaderLen)
    (hsum : fold (wordSum (pseudoHeader src dst seg.length nh ++ seg)) = 65535) :
    WellFormedReply pkt (ipv6Header src dst seg.length nh ++ seg) := by
  have hhdr := length_ipv6Header hsrc hdst seg.length nh
  have hforty : ipv6HeaderLen = 40 := rfl
  have hmtu : ipv6MinMTU = 1280 := rfl
  obtain ⟨hslice, hslice', hslice''⟩ := slice_ipv6Header hsrc hdst seg.length nh
  obtain ⟨hversion, hnext⟩ := getD_ipv6Header src dst seg.length nh
  have hlength : (ipv6Header src dst seg.length nh ++ seg).length = 40 + seg.length := by
    rw [List.length_append, hhdr, hforty]
  have hleft : ∀ off n, off + n ≤ 40 → slice (ipv6Header src dst seg.length nh ++ seg) off n =
      slice (ipv6Header src dst seg.length nh) off n :=
    fun off n h => slice_append_left _ _ (by omega)
  have hget : ∀ j < 40, (ipv6Header src dst seg.length nh ++ seg).getD j 0 =
      (ipv6Header src dst seg.length nh).getD j 0 :=
    fun j h => List.getD_append _ _ _ _ (by omega)
  refine ⟨by omega, by omega, ?_, ?_, ?_, ?_, ?_⟩
  · rw [hget 0 (by omega), hversion]
    decide
  · rw [hleft 4 2 (by omega), hslice, hlength, getBE_putBE_of_lt (by omega), hforty]
  · rw [hleft 8 16 (by omega), hslice', hpkt]
  · rw [hleft 24 16 (by omega), hslice'', hpkt']
  · rw [hleft 8 16 (by omega), hleft 24 16 (by omega), hget 6 (by omega), hslice', hslice'', hnext,
      List.drop_left' hhdr, hlength, hforty, Nat.add_sub_cancel_left]
    exact hsum

/-- The fields of a reply outside its checksum at the offset `k`. -/
theorem reply_fields {seg cs : Bytes} {k : ℕ} (hk : k + 2 ≤ seg.length) (hcs : cs.length = 2)
    {j n : ℕ} (hj : j + n ≤ k ∨ k + 2 ≤ j) :
    slice (ipv6Header src dst len nh ++ patch seg k cs) (40 + j) n = slice seg j n := by
  have hhdr : (ipv6Header src dst len nh).length = 40 := length_ipv6Header hsrc hdst len nh
  rw [slice_append_add _ _ hhdr, slice_patch_of_disjoint (by omega) (by omega)]

theorem getD_reply {seg cs : Bytes} {k : ℕ} (hk : k + 2 ≤ seg.length) (hcs : cs.length = 2)
    {j : ℕ} (hj : j < k ∨ k + 2 ≤ j) :
    (ipv6Header src dst len nh ++ patch seg k cs).getD (40 + j) 0 = seg.getD j 0 := by
  have hhdr : (ipv6Header src dst len nh).length = 40 := length_ipv6Header hsrc hdst len nh
  rw [List.getD_append_right _ _ _ _ (by omega), hhdr, Nat.add_sub_cancel_left,
    List.getD_eq_getElem?_getD, getElem?_patch (by omega), if_neg (by omega),
    List.getD_eq_getElem?_getD]

/-- **What the builders leave in the buffer.** Nothing of what was there before is part of the
reply. -/
theorem writeReply_spec {out seg : Bytes} (hout : ipv6HeaderLen + seg.length ≤ out.length)
    (hseg : seg.length < 65536) {k : ℕ} (hk : k + 2 ≤ seg.length) (heven : k % 2 = 0)
    (hzero : slice seg k 2 = [0, 0]) :
    (writeReply out src dst nh seg k).1.length = out.length ∧ ∃ cs : Bytes, cs.length = 2 ∧
      (writeReply out src dst nh seg k).1.take (writeReply out src dst nh seg k).2 =
        ipv6Header src dst seg.length nh ++ patch seg k cs ∧
      fold (wordSum (pseudoHeader src dst seg.length nh ++ patch seg k cs)) = 65535 := by
  have hhdr := length_ipv6Header hsrc hdst seg.length nh
  obtain ⟨-, hslice, hslice'⟩ := slice_ipv6Header hsrc hdst seg.length nh
  generalize hH : ipv6Header src dst seg.length nh = H at *
  have hforty : ipv6HeaderLen = 40 := rfl
  have hbuf : patch (writeIPv6Header out src dst seg.length nh) ipv6HeaderLen seg =
      H ++ (seg ++ out.drop (ipv6HeaderLen + seg.length)) := by
    rw [writeIPv6Header, hH, patch, patch, List.take_zero, List.nil_append, Nat.zero_add, hhdr,
      List.take_left' hhdr, ← List.drop_drop, List.drop_left' hhdr, List.drop_drop]
  have hlen : (H ++ (seg ++ out.drop (ipv6HeaderLen + seg.length))).length = out.length := by
    simp only [List.length_append, List.length_drop]
    omega
  simp only [writeReply, hbuf]
  refine ⟨by rw [length_patch (by rw [length_putBE]; omega), hlen], _, length_putBE 2 _, ?_,
    fold_ipv6Checksum hsrc hdst hseg nh hk heven hzero⟩
  rw [slice_append_left H _ (by omega), slice_append_left H _ (by omega), hslice, hslice',
    slice_middle H seg _ hhdr.symm rfl, Buffer.patch_append_add H _ _ hhdr,
    Buffer.patch_append _ (by rw [length_putBE]; omega), ← List.append_assoc, List.take_left']
  rw [List.length_append, hhdr, length_patch (by rw [length_putBE]; omega)]

end Header

/-! ## The two kinds of replies -/

/-- The segment at `off` is one that a reset is sent for. -/
def Resettable (pkt : Bytes) (off : ℕ) : Prop :=
  off + 20 ≤ pkt.length ∧ 20 ≤ doff pkt off ∧ off + doff pkt off ≤ pkt.length ∧
    pkt.getD (off + 13) 0 &&& tcpFlagRST = 0

theorem slice_resetSegment (sport dport rseq rack : ℕ) (rflags : UInt8) :
    slice (resetSegment sport dport rseq rack rflags) 0 2 = putBE 2 sport ∧
    slice (resetSegment sport dport rseq rack rflags) 2 2 = putBE 2 dport ∧
    slice (resetSegment sport dport rseq rack rflags) 4 4 = putBE 4 rseq ∧
    slice (resetSegment sport dport rseq rack rflags) 8 4 = putBE 4 rack ∧
    slice (resetSegment sport dport rseq rack rflags) 16 2 = [0, 0] :=
  ⟨rfl, rfl, rfl, rfl, rfl⟩

/-- The length that the source computes. -/
theorem segLen_eq (pkt : Bytes) (off : ℕ) :
    (let stop := ipv6HeaderLen + getBE (slice pkt 4 2)
      let stop := if stop > pkt.length then pkt.length else stop
      let segLen := if (stop : ℤ) - off - doff pkt off > 0 then stop - off - doff pkt off else 0
      let segLen := if pkt.getD (off + 13) 0 &&& tcpFlagSYN ≠ 0 then segLen + 1 else segLen
      if pkt.getD (off + 13) 0 &&& tcpFlagFIN ≠ 0 then segLen + 1 else segLen) =
    segmentLength pkt off := by
  unfold segmentLength
  dsimp only
  split_ifs <;> omega

section Replies

variable {pkt out : Bytes} (hpkt : ipv6HeaderLen ≤ pkt.length) (hout : ipv6MinMTU ≤ out.length)

include hpkt

theorem length_addresses : (slice pkt 24 16).length = 16 ∧ (slice pkt 8 16).length = 16 := by
  have hforty : ipv6HeaderLen = 40 := rfl
  exact ⟨length_slice (by omega), length_slice (by omega)⟩

/-- A segment with a checksum that verifies makes a reply. -/
theorem wellFormedReply_patch {seg cs : Bytes} (hlen : seg.length ≤ ipv6MinMTU - ipv6HeaderLen)
    {nh : UInt8} {k : ℕ} (hk : k + 2 ≤ seg.length) (hcs : cs.length = 2)
    (hsum : fold (wordSum (pseudoHeader (slice pkt 24 16) (slice pkt 8 16) seg.length nh ++
      patch seg k cs)) = 65535) :
    WellFormedReply pkt
      (ipv6Header (slice pkt 24 16) (slice pkt 8 16) seg.length nh ++ patch seg k cs) := by
  obtain ⟨hsrc, hdst⟩ := length_addresses hpkt
  have hpatch : (patch seg k cs).length = seg.length := length_patch (by omega)
  rw [← hpatch] at hsum hlen ⊢
  exact wellFormedReply_append hsrc hdst nh rfl rfl hlen hsum

include hout

/-- The reply that `writeReply` leaves for a segment. -/
theorem writeReply_reply {seg : Bytes} (hlen : seg.length ≤ ipv6MinMTU - ipv6HeaderLen) (nh : UInt8)
    {k : ℕ} (hk : k + 2 ≤ seg.length) (heven : k % 2 = 0) (hzero : slice seg k 2 = [0, 0]) :
    ∃ cs : Bytes, cs.length = 2 ∧ WellFormedReply pkt
      (ipv6Header (slice pkt 24 16) (slice pkt 8 16) seg.length nh ++ patch seg k cs) ∧
      (writeReply out (slice pkt 24 16) (slice pkt 8 16) nh seg k).1.take
        (writeReply out (slice pkt 24 16) (slice pkt 8 16) nh seg k).2 =
        ipv6Header (slice pkt 24 16) (slice pkt 8 16) seg.length nh ++ patch seg k cs := by
  have hforty : ipv6HeaderLen = 40 := rfl
  have hmtu : ipv6MinMTU = 1280 := rfl
  obtain ⟨hsrc, hdst⟩ := length_addresses hpkt
  obtain ⟨-, cs, hcs, hreply, hsum⟩ := writeReply_spec hsrc hdst nh
    (show ipv6HeaderLen + seg.length ≤ out.length by omega) (by omega) hk heven hzero
  exact ⟨cs, hcs, wellFormedReply_patch hpkt hlen hk hcs hsum, hreply⟩

omit hout in
/-- The fields of an error, outside its checksum. -/
theorem unreachable_fields {quote : ℕ} (hquote : quote ≤ pkt.length) (code : UInt8) {cs : Bytes}
    (hcs : cs.length = 2) :
    (unreachSegment pkt code quote).length = 8 + quote ∧
    slice (unreachSegment pkt code quote) 2 2 = [0, 0] ∧
    (ipv6Header (slice pkt 24 16) (slice pkt 8 16) (8 + quote) ipv6NextICMPv6 ++
      patch (unreachSegment pkt code quote) 2 cs).getD 6 0 = ipv6NextICMPv6 ∧
    UnreachableFor pkt (ipv6Header (slice pkt 24 16) (slice pkt 8 16) (8 + quote) ipv6NextICMPv6 ++
      patch (unreachSegment pkt code quote) 2 cs) code quote := by
  have hforty : ipv6HeaderLen = 40 := rfl
  have hlen : (unreachSegment pkt code quote).length = 8 + quote := by
    rw [unreachSegment, List.length_append, List.length_take, Nat.min_eq_left hquote]
    rfl
  have hk : 2 + 2 ≤ (unreachSegment pkt code quote).length := by omega
  obtain ⟨hsrc, hdst⟩ := length_addresses hpkt
  have hhdr := length_ipv6Header hsrc hdst (8 + quote) ipv6NextICMPv6
  have hfield := fun j => getD_reply hsrc hdst (8 + quote) ipv6NextICMPv6 hk hcs (j := j)
  refine ⟨hlen, ?_, ?_, ?_, ?_, ?_⟩
  · rw [unreachSegment, slice_append_left _ _ (by simp)]
    rfl
  · rw [List.getD_append _ _ _ _ (by omega)]
    exact (getD_ipv6Header _ _ _ _).2
  · rw [hfield 0 (by omega)]
    rfl
  · rw [hfield 1 (by omega)]
    rfl
  · rw [show 48 = ipv6HeaderLen + 8 from rfl, ← List.drop_drop, List.drop_left' hhdr,
      patch_drop (by omega) (by omega), unreachSegment]
    exact List.drop_left' rfl

/-- **The error that quotes the packet.** -/
theorem buildICMPv6Unreach_spec : ∃ reply,
    (buildICMPv6Unreach pkt (slice pkt 8 16) (slice pkt 24 16) out).1.take
      (buildICMPv6Unreach pkt (slice pkt 8 16) (slice pkt 24 16) out).2 = reply ∧
    WellFormedReply pkt reply ∧ reply.getD 6 0 = ipv6NextICMPv6 ∧
    UnreachableFor pkt reply icmpv6CodeAdmin (min pkt.length icmpv6QuoteMax) := by
  have hforty : ipv6HeaderLen = 40 := rfl
  have hmtu : ipv6MinMTU = 1280 := rfl
  have hmax : icmpv6QuoteMax = 1232 := rfl
  have hquote : (if pkt.length > icmpv6QuoteMax then icmpv6QuoteMax else pkt.length) =
      min pkt.length icmpv6QuoteMax := by
    split <;> omega
  simp only [buildICMPv6Unreach, hquote]
  have hfields : ∀ cs : Bytes, cs.length = 2 → _ :=
    fun cs => unreachable_fields hpkt (Nat.min_le_left pkt.length icmpv6QuoteMax) icmpv6CodeAdmin
  obtain ⟨hlen, hzero, -⟩ := hfields [0, 0] rfl
  obtain ⟨cs, hcs, hwf, hreply⟩ := writeReply_reply hpkt hout (by omega) ipv6NextICMPv6
    (show 2 + 2 ≤ (unreachSegment pkt icmpv6CodeAdmin (min pkt.length icmpv6QuoteMax)).length by omega)
    rfl hzero
  obtain ⟨-, -, hnext, hun⟩ := hfields cs hcs
  rw [hlen] at hwf hreply
  exact ⟨_, hreply, hwf, hnext, hun⟩

theorem writeReply_reset (sport dport rseq rack : ℕ) (rflags : UInt8) : ∃ reply,
    (writeReply out (slice pkt 24 16) (slice pkt 8 16) ipv6NextTCP
      (resetSegment sport dport rseq rack rflags) 16).1.take
      (writeReply out (slice pkt 24 16) (slice pkt 8 16) ipv6NextTCP
        (resetSegment sport dport rseq rack rflags) 16).2 = reply ∧
    WellFormedReply pkt reply ∧ reply.getD 6 0 = ipv6NextTCP ∧ reply.length = ipv6HeaderLen + 20 ∧
    slice reply 40 2 = putBE 2 sport ∧ slice reply 42 2 = putBE 2 dport ∧
    slice reply 44 4 = putBE 4 rseq ∧ slice reply 48 4 = putBE 4 rack ∧
    reply.getD 53 0 = rflags := by
  have hlen : (resetSegment sport dport rseq rack rflags).length = 20 := rfl
  have hflags : (resetSegment sport dport rseq rack rflags).getD 13 0 = rflags := rfl
  obtain ⟨h0, h2, h4, h8, h16⟩ := slice_resetSegment sport dport rseq rack rflags
  generalize resetSegment sport dport rseq rack rflags = seg at *
  have hmtu : seg.length ≤ ipv6MinMTU - ipv6HeaderLen := by
    rw [hlen]
    decide
  have hk : 16 + 2 ≤ seg.length := by omega
  obtain ⟨cs, hcs, hwf, hreply⟩ := writeReply_reply hpkt hout hmtu ipv6NextTCP hk rfl h16
  obtain ⟨hsrc, hdst⟩ := length_addresses hpkt
  have hhdr := length_ipv6Header hsrc hdst seg.length ipv6NextTCP
  have hforty : ipv6HeaderLen = 40 := rfl
  have hslice : ∀ j n, j + n ≤ 16 →
      slice (ipv6Header (slice pkt 24 16) (slice pkt 8 16) seg.length ipv6NextTCP ++ patch seg 16 cs)
        (40 + j) n = slice seg j n :=
    fun j n h => reply_fields hsrc hdst seg.length ipv6NextTCP hk hcs (.inl h)
  refine ⟨_, hreply, hwf, ?_, ?_, ?_, ?_, ?_, ?_, ?_⟩
  · rw [List.getD_append _ _ _ _ (by omega)]
    exact (getD_ipv6Header _ _ _ _).2
  · rw [List.length_append, hhdr, length_patch (by omega), hlen]
  · exact (hslice 0 2 (by omega)).trans h0
  · exact (hslice 2 2 (by omega)).trans h2
  · exact (hslice 4 4 (by omega)).trans h4
  · exact (hslice 8 4 (by omega)).trans h8
  · exact (getD_reply hsrc hdst seg.length ipv6NextTCP hk hcs (.inl (by omega))).trans hflags

/-- **The reset.** -/
theorem buildTCPReset_cases (off : ℕ) :
    (¬Resettable pkt off ∧ buildTCPReset pkt off (slice pkt 8 16) (slice pkt 24 16) out = none) ∨
    (Resettable pkt off ∧
      ∃ r, buildTCPReset pkt off (slice pkt 8 16) (slice pkt 24 16) out = some r ∧
        WellFormedReply pkt (r.1.take r.2) ∧ (r.1.take r.2).getD 6 0 = ipv6NextTCP ∧
        ResetFor pkt off (r.1.take r.2)) := by
  unfold Resettable buildTCPReset
  by_cases hshort : pkt.length < off + 20
  · exact .inl ⟨fun h => by omega, if_pos hshort⟩
  rw [if_neg hshort]
  by_cases hdoff : doff pkt off < 20 ∨ pkt.length < off + doff pkt off
  · exact .inl ⟨fun h => by omega, if_pos hdoff⟩
  rw [if_neg hdoff]
  by_cases hrst : pkt.getD (off + 13) 0 &&& tcpFlagRST ≠ 0
  · exact .inl ⟨fun h => hrst h.2.2.2, if_pos hrst⟩
  refine .inr ⟨⟨by omega, by omega, by omega, not_not.mp hrst⟩, _, if_neg hrst, ?_⟩
  have hlen := segLen_eq pkt off
  dsimp only at hlen
  rw [hlen]
  obtain ⟨reply, heq, hwf, hnext, hlength, h0, h2, h4, h8, hflags⟩ := writeReply_reset hpkt hout
    (getBE (slice pkt (off + 2) 2)) (getBE (slice pkt off 2))
    (if pkt.getD (off + 13) 0 &&& tcpFlagACK ≠ 0 then getBE (slice pkt (off + 8) 4) else 0)
    (if pkt.getD (off + 13) 0 &&& tcpFlagACK ≠ 0 then 0
      else (getBE (slice pkt (off + 4) 4) + segmentLength pkt off) % 2 ^ 32)
    (if pkt.getD (off + 13) 0 &&& tcpFlagACK ≠ 0 then tcpFlagRST else tcpFlagRST ||| tcpFlagACK)
  rw [heq]
  refine ⟨hwf, hnext, hlength, ?_, ?_, ?_, ?_, hflags⟩
  · rw [h0, getBE_putBE_of_lt (getBE_slice_lt pkt _ 2)]
  · rw [h2, getBE_putBE_of_lt (getBE_slice_lt pkt _ 2)]
  · rw [h4, getBE_putBE_of_lt]
    split
    · exact getBE_slice_lt pkt (off + 8) 4
    · norm_num
  · rw [h8, getBE_putBE_of_lt]
    split
    · norm_num
    · exact Nat.mod_lt _ (by norm_num)

end Replies

/-! ## Which packets are answered -/

/-- The addresses are those of a packet that may be answered, as far as the source checks them. -/
def AddressesAllow (pkt : Bytes) : Prop :=
  ipv6HeaderLen ≤ pkt.length ∧ pkt.getD 0 0 >>> 4 = 6 ∧ ¬Multicast (slice pkt 24 16) ∧
    ¬Multicast (slice pkt 8 16) ∧ ¬Unspecified (slice pkt 8 16)

/-- A segment to reset, or something that is neither TCP nor an ICMPv6 error. -/
def MessageAllows (pkt : Bytes) (nh : UInt8) (off : ℕ) : Prop :=
  (nh = ipv6NextTCP → Resettable pkt off) ∧
    ¬(nh = ipv6NextICMPv6 ∧ off < pkt.length ∧ pkt.getD off 0 < 128)

/-- The packets that are answered, by their addresses and by what stands behind the headers that are
walked. -/
def Answerable (pkt : Bytes) : Prop :=
  AddressesAllow pkt ∧ ∃ nh off, walkHeaders pkt (pkt.getD 6 0) ipv6HeaderLen = some (nh, off) ∧
    MessageAllows pkt nh off

theorem isAllZero_iff (b : Bytes) : isAllZero b = true ↔ Unspecified b := by
  simp [isAllZero, Unspecified]

/-- The checks of the addresses, before the headers are walked. -/
theorem buildIPv6Reject_eq (pkt : Bytes) {out : Bytes} (hout : ipv6MinMTU ≤ out.length) :
    (¬AddressesAllow pkt → buildIPv6Reject pkt out = none) ∧
    (AddressesAllow pkt → buildIPv6Reject pkt out =
      match walkHeaders pkt (pkt.getD 6 0) ipv6HeaderLen with
      | none => none
      | some (nh, off) =>
        if nh = ipv6NextTCP then buildTCPReset pkt off (slice pkt 8 16) (slice pkt 24 16) out
        else if nh = ipv6NextICMPv6 ∧ pkt.length > off ∧ pkt.getD off 0 < 128 then none
        else some (buildICMPv6Unreach pkt (slice pkt 8 16) (slice pkt 24 16) out)) := by
  have hbuf : ¬out.length < ipv6RejectBufSize := not_lt.mpr hout
  have hip : (pkt.length < ipv6HeaderLen ∨ pkt.getD 0 0 >>> 4 ≠ 6 ∨ out.length < ipv6RejectBufSize) ↔
      ¬(ipv6HeaderLen ≤ pkt.length ∧ pkt.getD 0 0 >>> 4 = 6) := by
    rw [not_and_or, not_le]
    tauto
  have haddr : ((slice pkt 24 16).getD 0 0 = 0xff ∨ (slice pkt 8 16).getD 0 0 = 0xff ∨
      isAllZero (slice pkt 8 16) = true) ↔ ¬(¬Multicast (slice pkt 24 16) ∧
        ¬Multicast (slice pkt 8 16) ∧ ¬Unspecified (slice pkt 8 16)) := by
    rw [isAllZero_iff, Multicast, Multicast]
    tauto
  unfold AddressesAllow buildIPv6Reject
  dsimp only
  constructor
  · intro h
    split_ifs with h1 h2
    · rfl
    · rfl
    · rw [hip, not_not] at h1
      rw [haddr, not_not] at h2
      exact absurd ⟨h1.1, h1.2, h2⟩ h
  · rintro ⟨hlen, hver, h⟩
    rw [if_neg (hip.not.mpr (not_not.mpr ⟨hlen, hver⟩)), if_neg (haddr.not.mpr (not_not.mpr h))]

/-- **Replies and their kinds.** -/
theorem reject_cases (pkt : Bytes) {out : Bytes} (hout : ipv6MinMTU ≤ out.length) :
    (¬Answerable pkt ∧ reject pkt out = none) ∨
    (Answerable pkt ∧ ∃ reply, reject pkt out = some reply ∧ WellFormedReply pkt reply ∧
      ((reply.getD 6 0 = ipv6NextTCP ∧ ∃ off,
          walkHeaders pkt (pkt.getD 6 0) ipv6HeaderLen = some (ipv6NextTCP, off) ∧
          ResetFor pkt off reply) ∨
        (reply.getD 6 0 = ipv6NextICMPv6 ∧
          UnreachableFor pkt reply icmpv6CodeAdmin (min pkt.length icmpv6QuoteMax)))) := by
  obtain ⟨hnone, hwalk⟩ := buildIPv6Reject_eq pkt hout
  by_cases hallow : AddressesAllow pkt
  swap
  · refine .inl ⟨fun h => hallow h.1, ?_⟩
    rw [reject, hnone hallow]
    rfl
  rw [reject, hwalk hallow]
  cases hw : walkHeaders pkt (pkt.getD 6 0) ipv6HeaderLen with
  | none =>
    refine .inl ⟨?_, rfl⟩
    rintro ⟨-, nh, off, hsome, -⟩
    cases hw.symm.trans hsome
  | some found =>
    obtain ⟨nh, off⟩ := found
    have hans : Answerable pkt ↔ MessageAllows pkt nh off := by
      constructor
      · rintro ⟨-, nh', off', hsome, hmsg⟩
        obtain ⟨rfl, rfl⟩ := Prod.mk.inj (Option.some.inj (hw.symm.trans hsome))
        exact hmsg
      · exact fun h => ⟨hallow, nh, off, hw, h⟩
    rw [hans]
    dsimp only
    by_cases htcp : nh = ipv6NextTCP
    · subst htcp
      rw [if_pos rfl]
      obtain ⟨hbad, hres⟩ | ⟨hgood, r, hres, hwf, hnext, hreset⟩ :=
        buildTCPReset_cases hallow.1 hout off
      · exact .inl ⟨fun h => hbad (h.1 rfl), by rw [hres]; rfl⟩
      · have hmsg : MessageAllows pkt ipv6NextTCP off :=
          ⟨fun _ => hgood, fun h => absurd h.1 (by decide)⟩
        refine .inr ⟨hmsg, r.1.take r.2, ?_, hwf, .inl ⟨hnext, off, rfl, hreset⟩⟩
        rw [hres]
        rfl
    · rw [if_neg htcp]
      by_cases herr : nh = ipv6NextICMPv6 ∧ pkt.length > off ∧ pkt.getD off 0 < 128
      · rw [if_pos herr]
        exact .inl ⟨fun h => h.2 herr, rfl⟩
      · rw [if_neg herr]
        obtain ⟨reply, heq, hwf, hnext, hunreach⟩ := buildICMPv6Unreach_spec hallow.1 hout
        refine .inr ⟨⟨fun h => absurd h htcp, herr⟩, reply, ?_, hwf, .inr ⟨hnext, hunreach⟩⟩
        rw [← heq]
        rfl

/-! ## The headers in front of a message -/

theorem Chain.le {pkt : Bytes} {nh nh' : UInt8} {off off' : ℕ} (h : Chain pkt nh off nh' off') :
    off ≤ off' := by
  induction h with
  | message => exact le_rfl
  | options _ _ _ ih => omega
  | fragment _ _ _ ih => omega

theorem chain_of_walkHeaders {pkt : Bytes} {nh nh' : UInt8} {off off' : ℕ}
    (h : walkHeaders pkt nh off = some (nh', off')) : Chain pkt nh off nh' off' := by
  fun_induction walkHeaders pkt nh off with
  | case1 => cases h
  | case2 => cases h
  | case3 nh off hnh hlen hend ih => exact .options hnh (not_lt.mp hlen) (ih h)
  | case4 nh off hnh =>
    obtain ⟨rfl, rfl⟩ := Prod.mk.inj (Option.some.inj h)
    exact .message _ _

/-- **The walk finds the message**, unless a fragment header stops it. -/
theorem walkHeaders_of_chain {pkt : Bytes} {nh nh' : UInt8} {off off' : ℕ}
    (h : Chain pkt nh off nh' off') (hend : off' ≤ pkt.length)
    (hnh : nh' = ipv6NextTCP ∨ nh' = ipv6NextICMPv6) :
    walkHeaders pkt nh off = some (nh', off') ∨ ∃ o, walkHeaders pkt nh off = some (44, o) := by
  induction h with
  | message nh off =>
    have hstop : ¬(nh = 0 ∨ nh = 43 ∨ nh = 60) := by
      rcases hnh with rfl | rfl <;> decide
    rw [walkHeaders, if_neg hstop]
    exact .inl rfl
  | options hopt hlen rest ih =>
    have hle := rest.le
    rw [walkHeaders, if_pos hopt, if_neg (by omega), if_neg (by omega)]
    exact ih hend hnh
  | fragment =>
    rw [walkHeaders, if_neg (by decide)]
    exact .inr ⟨_, rfl⟩

/-- A message that must not be answered is behind a fragment header, if it is answered. -/
theorem behindFragment_of_answerable {pkt : Bytes} (h : Answerable pkt)
    (hmsg : IsICMPv6Error pkt ∨ IsTCPReset pkt) :
    ∃ o, walkHeaders pkt (pkt.getD 6 0) ipv6HeaderLen = some (44, o) := by
  obtain ⟨-, nh, off, hw, hreset, herror⟩ := h
  rcases hmsg with ⟨off', hchain, hlt, htype⟩ | ⟨off', hchain, hlt, hflag⟩
  · obtain hfound | hfrag := walkHeaders_of_chain hchain (by omega) (.inr rfl)
    · obtain ⟨rfl, rfl⟩ := Prod.mk.inj (Option.some.inj (hw.symm.trans hfound))
      exact absurd ⟨rfl, hlt, htype⟩ herror
    · exact hfrag
  · obtain hfound | hfrag := walkHeaders_of_chain hchain (by omega) (.inl rfl)
    · obtain ⟨rfl, rfl⟩ := Prod.mk.inj (Option.some.inj (hw.symm.trans hfound))
      exact absurd (hreset rfl).2.2.2 hflag
    · exact hfrag

/-! ## The rejecter -/

/-- A reply is not answered. -/
theorem not_answerable_of_reply {pkt reply : Bytes}
    (h : (reply.getD 6 0 = ipv6NextTCP ∧ ∃ off, ResetFor pkt off reply) ∨
      (reply.getD 6 0 = ipv6NextICMPv6 ∧ ∃ code quote, UnreachableFor pkt reply code quote)) :
    ¬Answerable reply := by
  rintro ⟨-, nh, off, hw, hreset, herror⟩
  rcases h with ⟨hnext, off', hfor⟩ | ⟨hnext, code, quote, hfor⟩
  · rw [hnext, walkHeaders, if_neg (by decide)] at hw
    obtain ⟨rfl, rfl⟩ := Prod.mk.inj (Option.some.inj hw)
    have hflag : reply.getD 53 0 &&& tcpFlagRST = 0 := (hreset rfl).2.2.2
    rw [hfor.flags] at hflag
    split at hflag <;> exact absurd hflag (by decide)
  · rw [hnext, walkHeaders, if_neg (by decide)] at hw
    obtain ⟨rfl, rfl⟩ := Prod.mk.inj (Option.some.inj hw)
    have htype : reply.getD ipv6HeaderLen 0 = icmpv6DestUnreach := hfor.type_eq
    have hlt : ipv6HeaderLen < reply.length := by
      by_contra hle
      rw [List.getD_eq_default _ _ (not_lt.mp hle)] at htype
      exact absurd htype (by decide)
    exact herror ⟨rfl, hlt, by rw [htype]; decide⟩

/-- What is asked of `BuildIPv6Reject`. -/
structure RejectCorrect (pkt out : Bytes) : Prop where
  silent : MustNotAnswer pkt → reject pkt out = none
  wellFormed : ∀ reply, reject pkt out = some reply → WellFormedReply pkt reply
  reset : ∀ reply, reject pkt out = some reply → reply.getD 6 0 = ipv6NextTCP →
    ∃ off, Chain pkt (pkt.getD 6 0) ipv6HeaderLen ipv6NextTCP off ∧ ResetFor pkt off reply
  final : ∀ reply out', reject pkt out = some reply → reject reply out' = none

/-- The destination of a packet that is answered is not the unspecified address, and no fragment
header stands in front of an ICMPv6 error or a reset. -/
def Covered (pkt : Bytes) : Prop :=
  Answerable pkt → ¬Unspecified (slice pkt 24 16) ∧
    ¬((∃ o, walkHeaders pkt (pkt.getD 6 0) ipv6HeaderLen = some (44, o)) ∧
      (IsICMPv6Error pkt ∨ IsTCPReset pkt))

theorem reject_short (pkt : Bytes) {out : Bytes} (hout : out.length < ipv6MinMTU) :
    reject pkt out = none := by
  rw [reject, buildIPv6Reject, if_pos (.inr (.inr hout))]
  rfl

/-- **`BuildIPv6Reject` is right exactly for the packets that are covered**: its replies always are,
and it answers a packet that it must not answer only if the destination is unspecified or the message
stands behind a fragment header. -/
theorem rejectCorrect_iff (pkt out : Bytes) (hout : ipv6MinMTU ≤ out.length) :
    RejectCorrect pkt out ↔ Covered pkt := by
  obtain ⟨hno, hnone⟩ | ⟨hans, reply, hsome, hwf, hkind⟩ := reject_cases pkt hout
  · refine iff_of_true ⟨fun _ => hnone, ?_, ?_, ?_⟩ (fun h => absurd h hno) <;>
      simp [hnone]
  · have hreply : ∀ reply', reject pkt out = some reply' → reply' = reply := fun reply' h =>
      Option.some.inj (h.symm.trans hsome)
    constructor
    · intro h hans
      have hmay : ¬MustNotAnswer pkt := fun hmust => by cases (h.silent hmust).symm.trans hsome
      exact ⟨fun hu => hmay (.inr (.inr (.inr (.inl hu)))),
        fun hf => hmay (.inr (.inr (.inr (.inr hf.2))))⟩
    · intro h
      obtain ⟨hspec, hfrag⟩ := h hans
      refine ⟨fun hmust => ?_, fun reply' h' => ?_, fun reply' h' hnext => ?_, fun reply' out' h' => ?_⟩
      · obtain ⟨-, -, hdst, hsrc, hunspec⟩ := hans.1
        rcases hmust with hm | hu | hm | hu | hmsg
        · exact absurd hm hsrc
        · exact absurd hu hunspec
        · exact absurd hm hdst
        · exact absurd hu hspec
        · exact absurd ⟨behindFragment_of_answerable hans hmsg, hmsg⟩ hfrag
      · rw [hreply reply' h']
        exact hwf
      · obtain rfl := hreply reply' h'
        obtain ⟨-, off, hw, hreset⟩ | ⟨hicmp, -⟩ := hkind
        · exact ⟨off, chain_of_walkHeaders hw, hreset⟩
        · exact absurd (hnext.symm.trans hicmp) (by decide)
      · obtain rfl := hreply reply' h'
        have hfinal : ¬Answerable reply' := not_answerable_of_reply
          (hkind.imp (fun ⟨hnext, off, _, hreset⟩ => ⟨hnext, off, hreset⟩)
            fun ⟨hnext, hun⟩ => ⟨hnext, _, _, hun⟩)
        by_cases hbuf : ipv6MinMTU ≤ out'.length
        · obtain ⟨-, hnone⟩ | ⟨hyes, -⟩ := reject_cases reply' hbuf
          · exact hnone
          · exact absurd hyes hfinal
        · exact reject_short reply' (not_le.mp hbuf)

/-- An IPv6 packet with the given destination, next header and payload. -/
def samplePacket (dst : Bytes) (nh : UInt8) (payload : Bytes) : Bytes :=
  ipv6Header ([0x20, 1] ++ List.replicate 13 0 ++ [1]) dst payload.length nh ++ payload

def sampleDestination : Bytes := [0x20, 1] ++ List.replicate 13 0 ++ [2]

def sampleBuffer : Bytes := List.replicate ipv6MinMTU 0xaa

/-- A hop-by-hop header, then a SYN. -/
def samplePayload : Bytes := [6, 0, 1, 4, 0, 0, 0, 0] ++ resetSegment 1000 443 7 0 tcpFlagSYN

theorem rejectCorrect_syn :
    (reject (samplePacket sampleDestination 0 samplePayload) sampleBuffer).isSome = true ∧
    RejectCorrect (samplePacket sampleDestination 0 samplePayload) sampleBuffer := by
  have hspec : ¬∀ x ∈ slice (samplePacket sampleDestination 0 samplePayload) 24 16, x = 0 := by
    decide +kernel
  have hw : walkHeaders (samplePacket sampleDestination 0 samplePayload)
      ((samplePacket sampleDestination 0 samplePayload).getD 6 0) ipv6HeaderLen = some (6, 48) := by
    decide +kernel
  refine ⟨by decide +kernel, (rejectCorrect_iff _ _ (by decide +kernel)).mpr fun _ => ⟨hspec, ?_⟩⟩
  rintro ⟨⟨o, ho⟩, -⟩
  exact absurd (hw.symm.trans ho) (by simp)

/-- A datagram for the unspecified address, and an ICMPv6 error behind a fragment header: both are
answered. -/
theorem rejectCorrect_gaps :
    ¬RejectCorrect (samplePacket (List.replicate 16 0) 17 (List.replicate 8 0)) sampleBuffer ∧
    ¬RejectCorrect (samplePacket sampleDestination 44 [58, 0, 0, 0, 0, 0, 0, 1, 1, 0, 0, 0, 0, 0, 0, 0])
      sampleBuffer := by
  constructor
  · intro h
    have hmust : Unspecified (slice (samplePacket (List.replicate 16 0) 17 (List.replicate 8 0)) 24 16) := by
      unfold Unspecified
      decide +kernel
    have hnone := h.silent (.inr (.inr (.inr (.inl hmust))))
    revert hnone
    decide +kernel
  · intro h
    have hchain : Chain (samplePacket sampleDestination 44
        [58, 0, 0, 0, 0, 0, 0, 1, 1, 0, 0, 0, 0, 0, 0, 0]) 44 40 58 48 :=
      .fragment (by decide +kernel) (by decide +kernel) (.message 58 48)
    have hnone := h.silent (.inr (.inr (.inr (.inr (.inl ⟨48, hchain, by decide +kernel,
      by decide +kernel⟩)))))
    revert hnone
    decide +kernel

end ObsidianVPN.Ipv6
