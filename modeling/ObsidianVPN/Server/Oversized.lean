import ObsidianVPN.Server.Fragment
import ObsidianVPN.Server.MssClamp

/-!
# Packets that do not fit a client's tunnel

The router reads a packet for a client from the TUN, lowers the MSS of a SYN, and queues the packet
as it is if it fits the client's tunnel. A longer one is queued as TCP segments or as IPv4 fragments,
and dropped if it can be neither.

* `tunnelMTUFor`, `sendOversized`, `pieces`: the code;
* `Sendable`: the packet fits, or it can be split or fragmented; `splitTCP_cases`,
  `fragmentIPv4_cases`;
* `Carried`: the packet, a segmentation of it or its fragments;
* **`pieces_carry`**: what is queued fits the tunnel and carries the packet, and nothing is queued
  exactly if the packet is not sendable.
-/

namespace ObsidianVPN.Server

open ByteStr Checksum Chunks

def minClientMTU : ℕ := 1280
def maxTunnelMTU : ℕ := 1420

def tunnelMTUFor (configured : ℤ) : ℕ :=
  if configured ≤ 0 ∨ configured > maxTunnelMTU then maxTunnelMTU else configured.toNat

/-- The packets that `sendOversized` hands to `enqueue`. -/
def sendOversized (packet : Bytes) (limit : ℕ) : List Bytes :=
  let split := splitTCP packet (.ofNat limit)
  split.2 ++ if split.1 then [] else (fragmentIPv4 packet (.ofNat limit)).2

/-- The packets that `run` hands to `enqueue` for one packet from the TUN; `none` is an access out of
range while a SYN is clamped. -/
def pieces (normalizeMSS : Bool) (limit : ℕ) (packet : Bytes) : Option (List Bytes) :=
  if normalizeMSS then
    (clampDownlinkSYN packet (.ofNat limit)).map fun clamped =>
      if packet.length > limit then sendOversized clamped limit else [clamped]
  else some [packet]

/-! ## Clamping -/

/-- Clamping keeps the length. -/
theorem clampDownlinkSYN_length (pkt : Bytes) (limitMTU : Int64) :
    ∃ pkt', clampDownlinkSYN pkt limitMTU = some pkt' ∧ pkt'.length = pkt.length := by
  cases hopt : synOption pkt with
  | none => exact ⟨pkt, by rw [clampDownlinkSYN, hopt], rfl⟩
  | some found =>
    obtain ⟨l, idx⟩ := found
    obtain ⟨pkt', hclamp, rfl | ⟨mss, -, hupd⟩⟩ := clampDownlinkSYN_spec hopt limitMTU
    · exact ⟨pkt', hclamp, rfl⟩
    · obtain ⟨hdr', -, hlen, rfl⟩ := hupd.inHeader
      have hdesc := describes_of_locateTCP (synOption_spec hopt).1
      have hhdr := hdesc.hdrLen_le
      have htotal := hdesc.total_le
      unfold TcpLayout.hdrLen at hhdr
      exact ⟨_, hclamp, length_patch (by omega)⟩

/-! ## Splitting -/

/-- Differences of small numbers do not wrap around. -/
theorem toInt_ofNat_sub {m n : ℕ} (hm : m < 2 ^ 16) (hn : n < 2 ^ 17) :
    (Int64.ofNat m - Int64.ofNat n).toInt = (m : ℤ) - n := by
  rw [Int64.toInt_sub, Int64.toInt_ofNat_of_lt (by omega), Int64.toInt_ofNat_of_lt (by omega),
    Int.bmod_def]
  split <;> omega

/-- The packet can be split. -/
def Splits (limit : ℕ) (pkt : Bytes) (l : TcpLayout) : Prop :=
  locateTCP pkt = some l ∧ l.hdrLen < limit ∧ limit < l.total

theorem splitTCP_cases (pkt : Bytes) {limit : ℕ} (hlimit : limit ≤ maxTunnelMTU) :
    (∃ l segs, Splits limit pkt l ∧ splitTCP pkt (.ofNat limit) = (true, segs) ∧
      l.Describes pkt ∧ Segmented pkt l limit segs) ∨
    ((∀ l, ¬Splits limit pkt l) ∧ splitTCP pkt (.ofNat limit) = (false, [])) := by
  unfold splitTCP
  cases hloc : locateTCP pkt with
  | none => exact .inr ⟨fun l h => absurd (hloc.symm.trans h.1) (by simp), rfl⟩
  | some l =>
    have hdesc := describes_of_locateTCP hloc
    have hle := hdesc.hdrLen_le
    have hpayload := hdesc.length_payload
    have htotal : l.total < 65576 := by
      have := hdesc.total_lt.1
      split at this <;> omega
    unfold maxTunnelMTU at hlimit
    have hchunk := toInt_ofNat_sub (m := limit) (n := l.hdrLen) (by omega) (by omega)
    dsimp only
    split
    · rename_i hno
      refine .inr ⟨fun l' h => ?_, rfl⟩
      obtain rfl : l = l' := Option.some.inj (hloc.symm.trans h.1)
      obtain ⟨-, hlow, hhigh⟩ := h
      omega
    · rename_i hyes
      have hsum : (limit : ℤ) = (l.hdrLen +
          (Int64.ofNat limit - Int64.ofNat l.hdrLen).toInt.toNat : ℕ) := by omega
      refine .inl ⟨l, _, ⟨hloc, by omega, by omega⟩, rfl, hdesc, ?_⟩
      rw [hsum]
      exact segmented_splitLoop hdesc (by omega) (by omega)

/-! ## Fragmenting -/

/-- The packet can be fragmented. -/
structure Fragments (limit : ℕ) (pkt : Bytes) : Prop where
  version : byteAt pkt 0 >>> 4 = 4
  header : IPv4Header pkt
  low : headerLen pkt + 8 ≤ limit
  high : limit < totalLen pkt

/-- The payload of a fragment is what the limit leaves, rounded down. -/
theorem toInt_perFragment (pkt : Bytes) {limit : ℕ} (hlimit : limit ≤ maxTunnelMTU)
    (hhdr : headerLen pkt < 2 ^ 16) :
    (0 < (perFragment pkt (.ofNat limit)).toInt ↔ headerLen pkt + 8 ≤ limit) := by
  unfold maxTunnelMTU at hlimit
  have hdiff := toInt_ofNat_sub (m := limit) (n := headerLen pkt) (by omega) (by omega)
  have hand : (perFragment pkt (.ofNat limit)).toBitVec.toNat =
      (Int64.ofNat limit - Int64.ofNat (headerLen pkt)).toBitVec.toNat / 8 * 8 := by
    rw [perFragment, Int64.toBitVec_and, BitVec.toNat_and]
    exact and_not_seven (Int64.ofNat limit - Int64.ofNat (headerLen pkt)).toBitVec.isLt
  have hlt := (Int64.ofNat limit - Int64.ofNat (headerLen pkt)).toBitVec.isLt
  change (Int64.ofNat limit - Int64.ofNat (headerLen pkt)).toBitVec.toInt = _ at hdiff
  change 0 < (perFragment pkt (.ofNat limit)).toBitVec.toInt ↔ _
  rw [BitVec.toInt_eq_toNat_cond] at hdiff
  rw [BitVec.toInt_eq_toNat_cond, hand]
  split at hdiff <;> split <;> omega

theorem fragmentIPv4_cases (pkt : Bytes) {limit : ℕ} (hlimit : limit ≤ maxTunnelMTU) :
    (∃ frags, Fragments limit pkt ∧ fragmentIPv4 pkt (.ofNat limit) = (true, frags) ∧ frags ≠ [] ∧
      (∀ frag ∈ frags, frag.length ≤ limit) ∧
      (FragmentsFit pkt (.ofNat limit) → Fragmented pkt limit frags)) ∨
    (¬Fragments limit pkt ∧ fragmentIPv4 pkt (.ofNat limit) = (false, [])) := by
  have hmax : (Int64.ofNat limit).toInt = limit := by
    unfold maxTunnelMTU at hlimit
    exact Int64.toInt_ofNat_of_lt (by omega)
  have hhdr : headerLen pkt < 2 ^ 16 := by
    have := (byteAt pkt 0 &&& 0x0f).toNat_lt
    unfold headerLen
    omega
  have hper := toInt_perFragment pkt hlimit hhdr
  unfold fragmentIPv4
  rw [hmax]
  split
  · rename_i hno
    refine .inr ⟨fun h => ?_, rfl⟩
    obtain ⟨hge, hle, htotal⟩ := h.header
    rcases hno with hshort | hver
    · omega
    · exact hver h.version
  · rename_i hv4
    split
    · rename_i hno
      refine .inr ⟨fun h => ?_, rfl⟩
      obtain ⟨hge, hle, htotal⟩ := h.header
      have := h.high
      omega
    · rename_i hgood
      dsimp only
      split
      · rename_i hnone
        exact .inr ⟨fun h => absurd (hper.mpr h.low) (not_lt.mpr hnone), rfl⟩
      · rename_i hpos
        have hpos := not_le.mp hpos
        have hheader : IPv4Header pkt := ⟨by omega, by omega, by omega⟩
        have hsize := headerLen_add_perFragment_le hhdr hpos (by omega)
        rw [hmax] at hsize
        have hpayload := length_ipPayload hheader
        refine .inl ⟨_, ⟨?_, hheader, hper.mp hpos, by omega⟩, rfl, ?_, ?_, fun hfit => ?_⟩
        · simpa using (not_or.mp hv4).2
        · rw [fragmentLoop, if_pos (by omega)]
          exact List.cons_ne_nil _ _
        · intro frag hfrag
          obtain ⟨i, hi⟩ := List.mem_iff_getElem?.mp hfrag
          rw [fragmentLoop_eq pkt (by omega) 0, getElem?_rounds] at hi
          split at hi
          · rename_i hoff
            obtain rfl := Option.some.inj hi
            rw [(fragment_spec hheader hoff _).1, fragEnd]
            omega
          · cases hi
        · refine (fragmented_fragmentLoop_iff hheader _ (toInt_and_not_seven hpos).2
            (fun _ => hsize)).mpr fun off hoff hdvd => ⟨by omega, (hfit off hoff hdvd).2⟩

/-! ## What is queued -/

/-- The packet fits, or it can be split or fragmented. -/
def Sendable (limit : ℕ) (pkt : Bytes) : Prop :=
  pkt.length ≤ limit ∨ (∃ l, Splits limit pkt l) ∨ Fragments limit pkt

/-- The packets carry `pkt`: they are the packet itself, its segments or its fragments. -/
inductive Carried (limit : ℕ) (pkt : Bytes) : List Bytes → Prop where
  | whole : Carried limit pkt [pkt]
  | segments {l : TcpLayout} {segs : List Bytes} (hl : l.Describes pkt)
      (h : Segmented pkt l limit segs) : Carried limit pkt segs
  | fragments {frags : List Bytes} (h : Fragmented pkt limit frags) : Carried limit pkt frags

theorem sendOversized_cases (pkt : Bytes) {limit : ℕ} (hlimit : limit ≤ maxTunnelMTU) :
    (∀ p ∈ sendOversized pkt limit, p.length ≤ limit) ∧
    (sendOversized pkt limit ≠ [] ↔ (∃ l, Splits limit pkt l) ∨ Fragments limit pkt) ∧
    (sendOversized pkt limit ≠ [] → FragmentsFit pkt (.ofNat limit) →
      Carried limit pkt (sendOversized pkt limit)) := by
  obtain ⟨l, segs, hsplits, hsplit, hdesc, hseg⟩ | ⟨hnot, hsplit⟩ := splitTCP_cases pkt hlimit
  · have heq : sendOversized pkt limit = segs := by simp [sendOversized, hsplit]
    have hne : segs ≠ [] := by
      have := hseg.two_le
      rintro rfl
      simp at this
    rw [heq]
    refine ⟨fun p hp => ?_, ⟨fun _ => .inl ⟨l, hsplits⟩, fun _ => hne⟩, fun _ _ => .segments hdesc hseg⟩
    obtain ⟨i, hi⟩ := List.mem_iff_getElem?.mp hp
    exact_mod_cast (hseg.pieces i p hi).length_le
  · have heq : sendOversized pkt limit = (fragmentIPv4 pkt (.ofNat limit)).2 := by
      simp [sendOversized, hsplit]
    rw [heq]
    obtain ⟨frags, hfrags, hfrag, hne, hlen, hfit⟩ | ⟨hno, hfrag⟩ := fragmentIPv4_cases pkt hlimit
    · rw [hfrag]
      exact ⟨hlen, ⟨fun _ => .inr hfrags, fun _ => hne⟩, fun _ hf => .fragments (hfit hf)⟩
    · rw [hfrag]
      refine ⟨by simp, ⟨fun h => absurd rfl h, ?_⟩, fun h => absurd rfl h⟩
      rintro (⟨l, h⟩ | h)
      · exact absurd h (hnot l)
      · exact absurd h hno

theorem tunnelMTUFor_le (configured : ℤ) : tunnelMTUFor configured ≤ maxTunnelMTU := by
  unfold tunnelMTUFor maxTunnelMTU
  split <;> omega

/-- Clamping makes no access out of range. -/
theorem pieces_eq (limit : ℕ) (packet : Bytes) :
    ∃ clamped, clampDownlinkSYN packet (.ofNat limit) = some clamped ∧
      clamped.length = packet.length ∧ pieces true limit packet =
        some (if packet.length > limit then sendOversized clamped limit else [clamped]) := by
  obtain ⟨clamped, hclamp, hlen⟩ := clampDownlinkSYN_length packet (.ofNat limit)
  exact ⟨clamped, hclamp, hlen, by rw [pieces, if_pos rfl, hclamp, Option.map_some]⟩

theorem pieces_fit (packet : Bytes) {limit : ℕ} (hlimit : limit ≤ maxTunnelMTU) :
    ∃ out, pieces true limit packet = some out ∧ ∀ p ∈ out, p.length ≤ limit := by
  obtain ⟨clamped, -, hlen, hout⟩ := pieces_eq limit packet
  refine ⟨_, hout, ?_⟩
  split
  · exact (sendOversized_cases clamped hlimit).1
  · simp only [List.mem_singleton, forall_eq]
    omega

/-- **What the router queues for a client.** For every packet and every limit of the tunnel, clamping
makes no access out of range, and each packet that is queued fits the limit. Something is queued
exactly if the packet, after clamping, is sendable; it then carries the packet, as long as the offsets
of fragments stay in their range. -/
theorem pieces_carry (packet : Bytes) {limit : ℕ} (hlimit : limit ≤ maxTunnelMTU) :
    ∃ clamped out, clampDownlinkSYN packet (.ofNat limit) = some clamped ∧
      pieces true limit packet = some out ∧ (∀ p ∈ out, p.length ≤ limit) ∧
      (out ≠ [] ↔ Sendable limit clamped) ∧
      (out ≠ [] → FragmentsFit clamped (.ofNat limit) → Carried limit clamped out) := by
  obtain ⟨out, hout, hfit⟩ := pieces_fit packet hlimit
  obtain ⟨clamped, hclamp, hlen, hpieces⟩ := pieces_eq limit packet
  refine ⟨clamped, out, hclamp, hout, hfit, ?_⟩
  obtain rfl := Option.some.inj (hpieces.symm.trans hout)
  split
  · rename_i hlong
    obtain ⟨-, hsend, hcarry⟩ := sendOversized_cases clamped hlimit
    refine ⟨hsend.trans ?_, hcarry⟩
    exact ⟨.inr, fun h => h.resolve_left (by omega)⟩
  · rename_i hshort
    exact ⟨⟨fun _ => .inl (by omega), fun _ => List.cons_ne_nil _ _⟩, fun _ _ => .whole⟩

theorem pieces_carry_samplePacket :
    ∃ clamped out, clampDownlinkSYN samplePacket (.ofNat 42) = some clamped ∧
      pieces true 42 samplePacket = some out ∧ out.length = 3 ∧ Carried 42 clamped out := by
  obtain ⟨clamped, out, hclamp, hout, -, -, hcarry⟩ :=
    pieces_carry samplePacket (show 42 ≤ maxTunnelMTU by decide)
  have hlen : (pieces true 42 samplePacket).map List.length = some 3 := by decide +kernel
  rw [hout, Option.map_some, Option.some.injEq] at hlen
  have hsame : clampDownlinkSYN samplePacket (.ofNat 42) = some samplePacket := by decide +kernel
  obtain rfl := Option.some.inj (hsame.symm.trans hclamp)
  refine ⟨samplePacket, out, hclamp, hout, hlen, hcarry ?_ (by decide +kernel)⟩
  rintro rfl
  simp at hlen

end ObsidianVPN.Server
