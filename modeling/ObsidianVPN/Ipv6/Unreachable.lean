import ObsidianVPN.Ipv6.Reject

/-!
# The rejecter of the command-line client

The command-line client does not use `BuildIPv6Reject`: with IPv6 disabled it answers an IPv6 packet
from the TUN device with an ICMPv6 error of its own.

* `handleTunPacket`: what `copyTunToData` does with a packet;
* `icmpv6Checksum_eq`: the two implementations of the checksum agree;
* `handleTunPacket_reply`: every IPv6 packet with a whole header is answered, in the right form;
* **`clientReject_iff`**: the client keeps to the rules exactly for the packets that the other rejecter
  answers rightly, and for those without a whole header.
-/

namespace ObsidianVPN.Ipv6

open ByteStr Checksum

/-! ## The source -/

def checksumAddBytes (sum : ℕ) (b : Bytes) : ℕ := addWords sum b

def icmpv6Checksum (src dst icmp : Bytes) : ℕ :=
  let sum := checksumAddBytes 0 src
  let sum := checksumAddBytes sum dst
  let sum := checksumAddBytes sum (putBE 4 icmp.length ++ [0, 0, 0, 58])
  let sum := checksumAddBytes sum icmp
  65535 - fold sum

def isIPv6Packet (packet : Bytes) : Bool := decide (0 < packet.length ∧ packet.getD 0 0 >>> 4 = 6)

/-- The number of bytes that the client quotes. -/
def quoteLen (original : Bytes) : ℕ :=
  let origTotalLen := 40 + getBE (slice original 4 2)
  let origTotalLen := if origTotalLen > original.length then original.length else origTotalLen
  if origTotalLen > 1232 - 48 then 1232 - 48 else origTotalLen

/-- The fields are written into a fresh buffer, which makes up the bytes that are not written. -/
def buildICMPv6DestinationUnreachable (original : Bytes) : Except String Bytes :=
  if original.length < 40 ∨ original.getD 0 0 >>> 4 ≠ 6 then .error "not IPv6"
  else
    let src := slice original 24 16
    let dst := slice original 8 16
    let icmp := unreachSegment original 5 (quoteLen original)
    .ok (ipv6Header src dst (8 + quoteLen original) 58 ++
      patch icmp 2 (putBE 2 (icmpv6Checksum src dst icmp)))

/-- What becomes of a packet from the TUN device. -/
inductive TunAction where
  | reply (packet : Bytes)
  | ignore
  | send (packet : Bytes)
  deriving DecidableEq

/-- One round of `copyTunToData`, as far as the packet is concerned. -/
def handleTunPacket (enableIPv6 : Bool) (packet : Bytes) : TunAction :=
  if !enableIPv6 && isIPv6Packet packet then
    match buildICMPv6DestinationUnreachable packet with
    | .ok reply => .reply reply
    | .error _ => .ignore
  else .send packet

/-! ## Replies -/

/-- The two implementations of the checksum agree. -/
theorem icmpv6Checksum_eq {src dst icmp : Bytes} (hsrc : src.length = 16) (hdst : dst.length = 16)
    (hicmp : icmp.length < 65536) :
    icmpv6Checksum src dst icmp = ipv6Checksum src dst ipv6NextICMPv6 icmp := by
  have hle := wordSum_le src
  have hle' := wordSum_le dst
  have hle'' := wordSum_le icmp
  have hpseudo : wordSum (putBE 4 icmp.length ++ [0, 0, 0, 58]) = icmp.length + 58 := by
    rw [wordSum_append _ _ (by simp), wordSum_putBE_four hicmp]
    rfl
  have hnext : ipv6NextICMPv6.toNat = 58 := rfl
  rw [ipv6Checksum_eq hsrc hdst hicmp, hnext]
  simp only [icmpv6Checksum, checksumAddBytes]
  rw [addWords_eq 0 src (by omega), addWords_eq _ dst (by omega),
    addWords_eq _ (putBE 4 icmp.length ++ [0, 0, 0, 58]) (by omega), hpseudo,
    addWords_eq _ icmp (by omega), Nat.zero_add, ← Nat.add_assoc]

/-- **Every IPv6 packet with a whole header is answered.** -/
theorem handleTunPacket_reply {pkt : Bytes} (hpkt : ipv6HeaderLen ≤ pkt.length)
    (hver : pkt.getD 0 0 >>> 4 = 6) :
    ∃ reply, handleTunPacket false pkt = .reply reply ∧ WellFormedReply pkt reply ∧
      reply.getD 6 0 = ipv6NextICMPv6 ∧ UnreachableFor pkt reply 5 (quoteLen pkt) := by
  have hforty : ipv6HeaderLen = 40 := rfl
  have hmtu : ipv6MinMTU = 1280 := rfl
  obtain ⟨hle, hle'⟩ : quoteLen pkt ≤ pkt.length ∧ quoteLen pkt ≤ 1184 := by
    unfold quoteLen
    dsimp only
    constructor <;> split_ifs <;> omega
  obtain ⟨hsrc, hdst⟩ := length_addresses hpkt
  have hbuild : buildICMPv6DestinationUnreachable pkt = .ok _ :=
    if_neg (by rw [not_or, not_not]; exact ⟨not_lt.mpr hpkt, hver⟩)
  have hcond : (!false && isIPv6Packet pkt) = true := by
    have hip : isIPv6Packet pkt = true := decide_eq_true ⟨by omega, hver⟩
    simpa using hip
  obtain ⟨hlen, hzero, hnext, hun⟩ := unreachable_fields hpkt hle 5 (length_putBE 2
    (icmpv6Checksum (slice pkt 24 16) (slice pkt 8 16) (unreachSegment pkt 5 (quoteLen pkt))))
  refine ⟨_, ?_, ?_, hnext, hun⟩
  · rw [handleTunPacket, if_pos hcond, hbuild]
    rfl
  · have hk : 2 + 2 ≤ (unreachSegment pkt 5 (quoteLen pkt)).length := by omega
    have hsum := fold_ipv6Checksum hsrc hdst (by omega) ipv6NextICMPv6 hk rfl hzero
    rw [← icmpv6Checksum_eq hsrc hdst (by omega)] at hsum
    rw [← hlen]
    exact wellFormedReply_patch hpkt (by omega) hk (length_putBE 2 _) hsum

theorem handleTunPacket_short {pkt : Bytes} (hpkt : pkt.length < ipv6HeaderLen) (reply : Bytes) :
    handleTunPacket false pkt ≠ .reply reply := by
  have hbuild : buildICMPv6DestinationUnreachable pkt = .error "not IPv6" := if_pos (.inl hpkt)
  rw [handleTunPacket, hbuild]
  split <;> simp

/-! ## The rules -/

/-- What is asked of the client, for one packet. -/
structure ClientRejectCorrect (pkt : Bytes) : Prop where
  onlyIf : ∀ reply, handleTunPacket false pkt = .reply reply →
    ∀ out, ipv6RejectBufSize ≤ out.length → (reject pkt out).isSome = true
  wellFormed : ∀ reply, handleTunPacket false pkt = .reply reply →
    WellFormedReply pkt reply ∧ reply.getD 6 0 = ipv6NextICMPv6
  silent : Multicast (slice pkt 8 16) ∨ Multicast (slice pkt 24 16) ∨ IsICMPv6Error pkt ∨
    IsTCPReset pkt → ∀ reply, handleTunPacket false pkt ≠ .reply reply

/-- **The client keeps to the rules** exactly for the packets that it does not answer because their
header is cut off, and for those that `BuildIPv6Reject` answers and that are neither ICMPv6 errors nor
resets. -/
theorem clientReject_iff (pkt : Bytes) (hip : isIPv6Packet pkt = true) :
    ClientRejectCorrect pkt ↔
      pkt.length < ipv6HeaderLen ∨ Answerable pkt ∧ ¬(IsICMPv6Error pkt ∨ IsTCPReset pkt) := by
  obtain ⟨-, hver⟩ := of_decide_eq_true hip
  by_cases hlen : pkt.length < ipv6HeaderLen
  · have hno := handleTunPacket_short hlen
    exact iff_of_true ⟨fun reply h => absurd h (hno reply), fun reply h => absurd h (hno reply),
      fun _ => hno⟩ (.inl hlen)
  obtain ⟨reply, hreply, hwf, hnext, -⟩ := handleTunPacket_reply (not_lt.mp hlen) hver
  constructor
  · intro h
    have hsome := h.onlyIf reply hreply (List.replicate ipv6RejectBufSize 0)
      (by rw [List.length_replicate])
    obtain ⟨-, hnone⟩ | ⟨hans, -⟩ := reject_cases pkt
      (show ipv6MinMTU ≤ (List.replicate ipv6RejectBufSize (0 : UInt8)).length by
        rw [List.length_replicate]; exact le_rfl)
    · rw [hnone] at hsome
      cases hsome
    · exact .inr ⟨hans, fun hmsg => h.silent (.inr (.inr hmsg)) reply hreply⟩
  · rintro (hshort | ⟨hans, hmsg⟩)
    · exact absurd hshort hlen
    · obtain ⟨-, -, hdst, hsrc, -⟩ := hans.1
      refine ⟨fun _ _ out hout => ?_, fun reply' h' => ?_, fun hrule => ?_⟩
      · obtain ⟨hno, -⟩ | ⟨-, r, hr, -⟩ := reject_cases pkt hout
        · exact absurd hans hno
        · rw [hr]
          rfl
      · obtain rfl := TunAction.reply.inj (hreply.symm.trans h')
        exact ⟨hwf, hnext⟩
      · rcases hrule with hm | hm | hm
        · exact absurd hm hsrc
        · exact absurd hm hdst
        · exact absurd hm hmsg

theorem clientReject_datagram :
    isIPv6Packet (samplePacket sampleDestination 17 (List.replicate 8 0)) = true ∧
    ClientRejectCorrect (samplePacket sampleDestination 17 (List.replicate 8 0)) := by
  have hip : isIPv6Packet (samplePacket sampleDestination 17 (List.replicate 8 0)) = true := by
    decide +kernel
  have hsome : (reject (samplePacket sampleDestination 17 (List.replicate 8 0))
      sampleBuffer).isSome = true := by
    decide +kernel
  have hw : walkHeaders (samplePacket sampleDestination 17 (List.replicate 8 0))
      ((samplePacket sampleDestination 17 (List.replicate 8 0)).getD 6 0) ipv6HeaderLen =
        some (17, 40) := by
    decide +kernel
  obtain ⟨-, hnone⟩ | ⟨hans, -⟩ := reject_cases
    (samplePacket sampleDestination 17 (List.replicate 8 0))
    (show ipv6MinMTU ≤ sampleBuffer.length by decide +kernel)
  · rw [hnone] at hsome
    cases hsome
  · refine ⟨hip, (clientReject_iff _ hip).mpr (.inr ⟨hans, fun hmsg => ?_⟩)⟩
    obtain ⟨o, ho⟩ := behindFragment_of_answerable hans hmsg
    exact absurd (hw.symm.trans ho) (by simp)

/-- A datagram for the multicast group of all nodes is answered. -/
theorem clientReject_multicast :
    ¬ClientRejectCorrect (samplePacket ([0xff, 2] ++ List.replicate 13 0 ++ [1]) 17
      (List.replicate 8 0)) := by
  intro h
  have hmulticast : (slice (samplePacket ([0xff, 2] ++ List.replicate 13 0 ++ [1]) 17
      (List.replicate 8 0)) 24 16).getD 0 0 = 0xff := by
    decide +kernel
  obtain ⟨reply, hreply, -⟩ := handleTunPacket_reply
    (show ipv6HeaderLen ≤ (samplePacket ([0xff, 2] ++ List.replicate 13 0 ++ [1]) 17
      (List.replicate 8 0)).length by decide +kernel) (by decide +kernel)
  exact h.silent (.inr (.inl hmulticast)) reply hreply

end ObsidianVPN.Ipv6
