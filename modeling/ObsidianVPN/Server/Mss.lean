import ObsidianVPN.Lib.Checksum
import ObsidianVPN.Lib.Chunks

/-!
# Segmentation of TCP packets

Packets for a client that are longer than its tunnel takes are cut into TCP segments by the server.
A packet that is not emitted as segments here is fragmented or dropped by the caller.

* `locateTCP`, `splitTCP`: the headers of a packet, and the segments that are emitted;
* `TcpLayout.Describes`: what the layout says about the packet; `describes_of_locateTCP`;
* `Piece`: one segment; `piece_segment`: header fields, checksums and payload are right;
* `splitLoop_eq`: the loop emits one segment for each multiple of the chunk size;
* **`splitTCP_correct`**: the segments of every packet are a TCP segmentation of it.
-/

namespace ObsidianVPN.Server

open ByteStr Checksum Chunks

/-! ## The headers -/

def ipProtoTCP : UInt8 := 6
def tcpFIN : UInt8 := 0x01
def tcpPSH : UInt8 := 0x08

/-- `pkt[k]`, for an index within the packet. -/
def byteAt (pkt : Bytes) (k : ℕ) : UInt8 := pkt[k]?.getD 0

structure TcpLayout where
  v6 : Bool
  ipLen : ℕ
  tcpLen : ℕ
  total : ℕ

/-- The switch of `locateTCP` over the IP version, before `tcpLen` is known. -/
def locateIP (pkt : Bytes) : Option TcpLayout :=
  if pkt.length < 1 then none
  else if byteAt pkt 0 >>> 4 = 4 then
    if pkt.length < 20 then none
    else
      let ihl := (byteAt pkt 0 &&& 0x0f).toNat * 4
      let total := getBE (slice pkt 2 2)
      if ihl < 20 ∨ total < ihl ∨ total > pkt.length ∨ byteAt pkt 9 ≠ ipProtoTCP then none
      else if getBE (slice pkt 6 2) &&& 0x3fff ≠ 0 then none
      else some ⟨false, ihl, 0, total⟩
  else if byteAt pkt 0 >>> 4 = 6 then
    if pkt.length < 40 ∨ byteAt pkt 6 ≠ ipProtoTCP then none
    else
      let total := 40 + getBE (slice pkt 4 2)
      if total > pkt.length then none
      else some ⟨true, 40, 0, total⟩
  else none

def locateTCP (pkt : Bytes) : Option TcpLayout :=
  match locateIP pkt with
  | none => none
  | some l =>
    if l.total < l.ipLen + 20 then none
    else
      let tcpLen := (byteAt pkt (l.ipLen + 12) >>> 4).toNat * 4
      if tcpLen < 20 ∨ l.ipLen + tcpLen > l.total then none
      else some { l with tcpLen := tcpLen }

def TcpLayout.hdrLen (l : TcpLayout) : ℕ := l.ipLen + l.tcpLen

def TcpLayout.payload (l : TcpLayout) (pkt : Bytes) : Bytes := slice pkt l.hdrLen (l.total - l.hdrLen)

/-! ## Checksums -/

/-- The loop of `onesSum` on a 32-bit sum. -/
def onesSumLoop (sum : ℕ) : Bytes → ℕ
  | a :: b :: rest => onesSumLoop ((sum + (a.toNat * 256 + b.toNat)) % 2 ^ 32) rest
  | [a] => (sum + a.toNat * 256) % 2 ^ 32
  | [] => sum

def onesSum (b : Bytes) : ℕ := onesSumLoop 0 b

def foldSum (sum : ℕ) : ℕ := fold sum

/-- The complement of a 16-bit word. -/
def not16 (x : ℕ) : ℕ := 65535 - x

def pseudoSum (ip : Bytes) (v6 : Bool) (segLen : ℕ) : ℕ :=
  let sum := if v6 then onesSum (slice ip 8 32) else onesSum (slice ip 12 8)
  (sum + ipProtoTCP.toNat + segLen) % 2 ^ 32

/-- The TCP header and payload `tcp` of the packet `ip`, with its checksum. -/
def setTCPChecksum (ip : Bytes) (v6 : Bool) (tcp : Bytes) : Bytes :=
  let tcp := patch tcp 16 [0, 0]
  let sum := (pseudoSum ip v6 tcp.length + onesSum tcp) % 2 ^ 32
  patch tcp 16 (putBE 2 (not16 (foldSum sum)))

/-- The IPv4 header `h` with its checksum. -/
def setIPv4Checksum (h : Bytes) : Bytes :=
  let h := patch h 10 [0, 0]
  patch h 10 (putBE 2 (not16 (foldSum (onesSum h))))

/-! ## Segments -/

section Segment

variable (pkt : Bytes) (l : TcpLayout) (chunk i off : ℕ)

/-- The end of the chunk that starts at `off`. -/
def chunkEnd : ℕ := min (off + chunk) (l.payload pkt).length

/-- The new packet before its headers are changed. -/
def newBuf : Bytes :=
  pkt.take l.hdrLen ++ slice (l.payload pkt) off (chunkEnd pkt l chunk off - off)

def newIP : Bytes :=
  let buf := newBuf pkt l chunk off
  let ip := buf.take l.ipLen
  let id := getBE (slice pkt 4 2)
  if l.v6 then patch ip 4 (putBE 2 (l.tcpLen + (chunkEnd pkt l chunk off - off)))
  else setIPv4Checksum (patch (patch ip 2 (putBE 2 buf.length)) 4 (putBE 2 (id + i)))

def newTCP : Bytes :=
  let seq := getBE (slice pkt (l.ipLen + 4) 4)
  let flags := byteAt pkt (l.ipLen + 13)
  let tcp := (newBuf pkt l chunk off).drop l.ipLen
  let tcp := patch tcp 4 (putBE 4 (seq + off))
  patch tcp 13 [if chunkEnd pkt l chunk off ≠ (l.payload pkt).length
    then flags &&& ~~~(tcpFIN ||| tcpPSH) else flags]

/-- The packet that the loop of `splitTCP` emits in round `i`, for the payload from `off` on. -/
def segment : Bytes :=
  let ip := newIP pkt l chunk i off
  let tcp := newTCP pkt l chunk off
  ip ++ setTCPChecksum (ip ++ tcp) l.v6 tcp

end Segment

/-- The loop of `splitTCP`. -/
def splitLoop (pkt : Bytes) (l : TcpLayout) (chunk : ℕ) (hchunk : 0 < chunk) (i off : ℕ) :
    List Bytes :=
  if off < (l.payload pkt).length then
    segment pkt l chunk i off :: splitLoop pkt l chunk hchunk (i + 1) (off + chunk)
  else []
termination_by (l.payload pkt).length - off

/-- What `splitTCP` returns, and the packets it emits. -/
def splitTCP (pkt : Bytes) (maxLen : Int64) : Bool × List Bytes :=
  match locateTCP pkt with
  | none => (false, [])
  | some l =>
    let chunk := (maxLen - Int64.ofNat l.hdrLen).toInt
    if h : chunk ≤ 0 ∨ (l.payload pkt).length ≤ chunk then (false, [])
    else (true, splitLoop pkt l chunk.toNat (by omega) 0 0)

/-! ## What a layout says -/

/-- The fields of the layout are those of the headers of an unfragmented TCP packet. -/
structure TcpLayout.Describes (l : TcpLayout) (pkt : Bytes) : Prop where
  version : byteAt pkt 0 >>> 4 = if l.v6 then 6 else 4
  ipLen_eq : l.ipLen = if l.v6 then 40 else (byteAt pkt 0 &&& 0x0f).toNat * 4
  ipLen_ge : 20 ≤ l.ipLen
  total_eq : l.total = if l.v6 then 40 + getBE (slice pkt 4 2) else getBE (slice pkt 2 2)
  total_le : l.total ≤ pkt.length
  proto : byteAt pkt (if l.v6 then 6 else 9) = ipProtoTCP
  unfragmented : l.v6 = false → getBE (slice pkt 6 2) &&& 0x3fff = 0
  tcpLen_eq : l.tcpLen = (byteAt pkt (l.ipLen + 12) >>> 4).toNat * 4
  tcpLen_ge : 20 ≤ l.tcpLen
  hdrLen_le : l.hdrLen ≤ l.total

/-- **The two IP versions.** -/
theorem locateIP_cases {pkt : Bytes} {l : TcpLayout} (h : locateIP pkt = some l) :
    (byteAt pkt 0 >>> 4 = 4 ∧ l = ⟨false, (byteAt pkt 0 &&& 0x0f).toNat * 4, 0, getBE (slice pkt 2 2)⟩ ∧
      20 ≤ l.ipLen ∧ l.total ≤ pkt.length ∧ byteAt pkt 9 = ipProtoTCP ∧
      getBE (slice pkt 6 2) &&& 0x3fff = 0) ∨
    (byteAt pkt 0 >>> 4 = 6 ∧ l = ⟨true, 40, 0, 40 + getBE (slice pkt 4 2)⟩ ∧
      l.total ≤ pkt.length ∧ byteAt pkt 6 = ipProtoTCP) := by
  unfold locateIP at h
  dsimp only at h
  split at h
  · cases h
  · split at h
    · rename_i hversion
      split at h
      · cases h
      · split at h
        · cases h
        · rename_i hchecks
          obtain ⟨hihl, -, htotal, hproto⟩ := by simpa only [not_or] using hchecks
          split at h
          · cases h
          · rename_i hfrag
            cases h
            exact .inl ⟨hversion, rfl, not_lt.mp hihl, not_lt.mp htotal, not_not.mp hproto,
              not_not.mp hfrag⟩
    · split at h
      · rename_i hversion
        split at h
        · cases h
        · rename_i hchecks
          obtain ⟨-, hproto⟩ := not_or.mp hchecks
          split at h
          · cases h
          · rename_i htotal
            cases h
            exact .inr ⟨hversion, rfl, not_lt.mp htotal, not_not.mp hproto⟩
      · cases h

theorem describes_of_locateTCP {pkt : Bytes} {l : TcpLayout} (h : locateTCP pkt = some l) :
    l.Describes pkt := by
  unfold locateTCP at h
  split at h
  · cases h
  · rename_i l₀ hip
    split at h
    · cases h
    · dsimp only at h
      split at h
      · cases h
      · rename_i hlens
        obtain ⟨htcp, hhdr⟩ := not_or.mp hlens
        cases h
        rcases locateIP_cases hip with ⟨hversion, rfl, hihl, htotal, hproto, hfrag⟩ |
          ⟨hversion, rfl, htotal, hproto⟩
        · exact ⟨hversion, rfl, hihl, rfl, htotal, hproto, fun _ => hfrag, rfl, not_lt.mp htcp,
            not_lt.mp hhdr⟩
        · exact ⟨hversion, rfl, by simp, rfl, htotal, hproto, by simp, rfl, not_lt.mp htcp,
            not_lt.mp hhdr⟩

section Layout

variable {pkt : Bytes} {l : TcpLayout} (h : l.Describes pkt)

include h

/-- The length field of the IP header has 16 bits; that of IPv6 does not count the header. -/
theorem TcpLayout.Describes.total_lt :
    l.total < (if l.v6 then 40 else 0) + 65536 ∧ l.total - l.ipLen < 65536 := by
  have h4 := getBE_slice_lt pkt 4 2
  have h2 := getBE_slice_lt pkt 2 2
  have htotal := h.total_eq
  have hip := h.ipLen_eq
  cases hv : l.v6
  · simp only [hv, Bool.false_eq_true, if_false] at htotal ⊢
    omega
  · simp only [hv, if_true] at htotal hip ⊢
    omega

theorem TcpLayout.Describes.length_payload : (l.payload pkt).length = l.total - l.hdrLen := by
  have := h.total_le
  have := h.hdrLen_le
  exact length_slice (by omega)

end Layout

/-! ## Sums -/

theorem onesSumLoop_eq (sum : ℕ) (b : Bytes) : onesSumLoop sum b = addWords sum b := by
  induction b using wordSum.induct generalizing sum with
  | case1 x y rest ih => rw [onesSumLoop, addWords, ih]
  | case2 x => rfl
  | case3 => rfl

theorem onesSum_eq {b : Bytes} (h : b.length ≤ 65536) : onesSum b = wordSum b := by
  have := wordSum_le b
  rw [onesSum, onesSumLoop_eq, addWords_eq _ _ (by omega), Nat.zero_add]

/-- The pseudo-header of a segment of `segLen` bytes. -/
def pseudoHeader (ip : Bytes) (v6 : Bool) (segLen : ℕ) : Bytes :=
  if v6 then slice ip 8 32 ++ (putBE 4 segLen ++ [0, 0, 0, 6])
  else slice ip 12 8 ++ ([0, 6] ++ putBE 2 segLen)

theorem wordSum_pseudoHeader (ip : Bytes) (v6 : Bool) (hip : (if v6 then 40 else 20) ≤ ip.length)
    {segLen : ℕ} (hseg : segLen < 65536) (b : Bytes) :
    wordSum (pseudoHeader ip v6 segLen ++ b) =
      (if v6 then wordSum (slice ip 8 32) else wordSum (slice ip 12 8)) + 6 + segLen + wordSum b := by
  have hsix : wordSum [0, 6] = 6 ∧ wordSum [0, 0, 0, 6] = 6 := ⟨rfl, rfl⟩
  cases v6 with
  | false =>
    have hlen : (slice ip 12 8).length = 8 := length_slice (by simpa using hip)
    simp only [pseudoHeader, Bool.false_eq_true, if_false, List.append_assoc]
    rw [wordSum_append _ _ (by rw [hlen]), wordSum_append _ _ rfl, wordSum_append _ _ (by simp),
      wordSum_putBE_two, Nat.mod_eq_of_lt hseg, hsix.1]
    omega
  | true =>
    have hlen : (slice ip 8 32).length = 32 := length_slice (by simpa using hip)
    simp only [pseudoHeader, if_true, List.append_assoc]
    rw [wordSum_append _ _ (by rw [hlen]), wordSum_append _ _ (by simp), wordSum_append _ _ rfl,
      wordSum_putBE_four hseg, hsix.2]
    omega

/-- The sum over the addresses does not overflow. -/
theorem onesSum_slice (ip : Bytes) (off : ℕ) {n : ℕ} (hn : n ≤ 32) :
    onesSum (slice ip off n) = wordSum (slice ip off n) ∧
      wordSum (slice ip off n) ≤ 65535 * 16 := by
  have hlen : (slice ip off n).length ≤ 32 := (List.length_take_le n _).trans hn
  have hle := wordSum_le (slice ip off n)
  exact ⟨onesSum_eq (by omega), by omega⟩

/-- What `setTCPChecksum` sums beside the segment. -/
theorem pseudoSum_eq (ip : Bytes) (v6 : Bool) {segLen : ℕ} (hseg : segLen < 65536) :
    pseudoSum ip v6 segLen =
      (if v6 then wordSum (slice ip 8 32) else wordSum (slice ip 12 8)) + 6 + segLen := by
  obtain ⟨heq6, hle6⟩ := onesSum_slice ip 8 le_rfl
  obtain ⟨heq4, hle4⟩ := onesSum_slice ip 12 (show 8 ≤ 32 by norm_num)
  have hsix : ipProtoTCP.toNat = 6 := rfl
  simp only [pseudoSum, hsix, heq6, heq4]
  refine Nat.mod_eq_of_lt ?_
  split <;> omega

theorem pseudoSum_lt (ip : Bytes) (v6 : Bool) {segLen : ℕ} (hseg : segLen < 65536) :
    pseudoSum ip v6 segLen < 2 ^ 22 := by
  have hle6 := (onesSum_slice ip 8 le_rfl).2
  have hle4 := (onesSum_slice ip 12 (show 8 ≤ 32 by norm_num)).2
  rw [pseudoSum_eq ip v6 hseg]
  split <;> omega

/-- The sum that `setTCPChecksum` computes does not overflow. -/
theorem setTCPChecksum_eq (ip : Bytes) (v6 : Bool) {tcp : Bytes} (hlow : 18 ≤ tcp.length)
    (hhigh : tcp.length < 65536) :
    setTCPChecksum ip v6 tcp = patch tcp 16
      (putBE 2 (65535 - fold (pseudoSum ip v6 tcp.length + wordSum (patch tcp 16 [0, 0])))) := by
  have hzero : (patch tcp 16 [0, 0]).length = tcp.length := length_patch (by simpa using hlow)
  have hle := wordSum_le (patch tcp 16 [0, 0])
  have hsum : (pseudoSum ip v6 tcp.length + onesSum (patch tcp 16 [0, 0])) % 2 ^ 32 =
      pseudoSum ip v6 tcp.length + wordSum (patch tcp 16 [0, 0]) := by
    have := pseudoSum_lt ip v6 hhigh
    rw [onesSum_eq (by omega)]
    exact Nat.mod_eq_of_lt (by omega)
  simp only [setTCPChecksum, hzero, hsum, not16, foldSum]
  rw [patch_patch (by simpa using hlow) (by simp)]

/-- **The TCP checksum**: the segment is changed in that field only, and then verifies over the
pseudo-header. -/
theorem setTCPChecksum_spec (ip : Bytes) (v6 : Bool) (hip : (if v6 then 40 else 20) ≤ ip.length)
    {tcp : Bytes} (hlow : 18 ≤ tcp.length) (hhigh : tcp.length < 65536) :
    ∃ v, v.length = 2 ∧ setTCPChecksum ip v6 tcp = patch tcp 16 v ∧
      fold (wordSum (pseudoHeader ip v6 tcp.length ++ patch tcp 16 v)) = 65535 := by
  refine ⟨_, length_putBE 2 _, setTCPChecksum_eq ip v6 hlow hhigh, ?_⟩
  rw [wordSum_pseudoHeader ip v6 hip hhigh, ← pseudoSum_eq ip v6 hhigh]
  exact fold_checksum _ (by omega) rfl

/-- **The IPv4 header checksum.** -/
theorem setIPv4Checksum_spec {h : Bytes} (hlow : 12 ≤ h.length) (hhigh : h.length < 65536) :
    ∃ v, v.length = 2 ∧ setIPv4Checksum h = patch h 10 v ∧ fold (wordSum (patch h 10 v)) = 65535 := by
  have hzero : (patch h 10 [0, 0]).length = h.length := length_patch (by simpa using hlow)
  have hfold := fold_checksum 0 (b := h) (show 10 + 2 ≤ h.length by omega) rfl
  rw [Nat.zero_add, Nat.zero_add] at hfold
  refine ⟨putBE 2 (65535 - fold (wordSum (patch h 10 [0, 0]))), length_putBE 2 _, ?_, hfold⟩
  simp only [setIPv4Checksum, onesSum_eq (show (patch h 10 [0, 0]).length ≤ 65536 by omega), not16,
    foldSum]
  rw [patch_patch (by simpa using hlow) (by simp)]

/-! ## One segment -/

/-- The bytes of the headers that may differ from those of the packet: lengths, IPv4 identification,
sequence number, flags and checksums. -/
def Rewritten (l : TcpLayout) (j : ℕ) : Prop :=
  (if l.v6 then 4 ≤ j ∧ j < 6 else (2 ≤ j ∧ j < 6) ∨ (10 ≤ j ∧ j < 12)) ∨
    (l.ipLen + 4 ≤ j ∧ j < l.ipLen + 8) ∨ j = l.ipLen + 13 ∨ (l.ipLen + 16 ≤ j ∧ j < l.ipLen + 18)

/-- `seg` is the segment number `i` of the packet, with the payload from `off` on. -/
structure Piece (pkt : Bytes) (l : TcpLayout) (maxLen : ℤ) (i off : ℕ) (last : Bool) (seg : Bytes) :
    Prop where
  hdrLen_lt : l.hdrLen < seg.length
  length_le : seg.length ≤ maxLen
  payload : seg.drop l.hdrLen = slice (l.payload pkt) off (seg.length - l.hdrLen)
  seq : getBE (slice seg (l.ipLen + 4) 4) = (getBE (slice pkt (l.ipLen + 4) 4) + off) % 2 ^ 32
  ipLength : if l.v6 then 40 + getBE (slice seg 4 2) = seg.length
    else getBE (slice seg 2 2) = seg.length
  ident : l.v6 = false → getBE (slice seg 4 2) = (getBE (slice pkt 4 2) + i) % 2 ^ 16
  flags : byteAt seg (l.ipLen + 13) = if last then byteAt pkt (l.ipLen + 13)
    else byteAt pkt (l.ipLen + 13) &&& ~~~(tcpFIN ||| tcpPSH)
  others : ∀ j < l.hdrLen, ¬Rewritten l j → byteAt seg j = byteAt pkt j
  tcpChecksum : fold (wordSum (pseudoHeader seg l.v6 (seg.length - l.ipLen) ++ seg.drop l.ipLen)) =
    65535
  ipChecksum : l.v6 = false → fold (wordSum (seg.take l.ipLen)) = 65535

theorem pseudoHeader_append {ip : Bytes} {v6 : Bool} (hip : (if v6 then 40 else 20) ≤ ip.length)
    (tcp : Bytes) (segLen : ℕ) : pseudoHeader (ip ++ tcp) v6 segLen = pseudoHeader ip v6 segLen := by
  cases v6 with
  | false =>
    have : 12 + 8 ≤ ip.length := by simpa using hip
    simp only [pseudoHeader, Bool.false_eq_true, if_false, slice_append_left ip tcp this]
  | true =>
    have : 8 + 32 ≤ ip.length := by simpa using hip
    simp only [pseudoHeader, if_true, slice_append_left ip tcp this]

theorem byteAt_append_left {a b : Bytes} {j : ℕ} (hj : j < a.length) :
    byteAt (a ++ b) j = byteAt a j := by
  rw [byteAt, List.getElem?_append_left hj, byteAt]

theorem byteAt_append_add (a b : Bytes) {n : ℕ} (ha : a.length = n) (j : ℕ) :
    byteAt (a ++ b) (n + j) = byteAt b j := by
  subst ha
  rw [byteAt, List.getElem?_append_right (by omega), Nat.add_sub_cancel_left, byteAt]

theorem byteAt_take {b : Bytes} {n j : ℕ} (hj : j < n) : byteAt (b.take n) j = byteAt b j := by
  rw [byteAt, List.getElem?_take_of_lt hj, byteAt]

theorem byteAt_drop (b : Bytes) (n j : ℕ) : byteAt (b.drop n) j = byteAt b (n + j) := by
  rw [byteAt, List.getElem?_drop, byteAt]

theorem byteAt_patch {b v : Bytes} {off : ℕ} (h : off + v.length ≤ b.length) {j : ℕ}
    (hj : j < off ∨ off + v.length ≤ j) : byteAt (patch b off v) j = byteAt b j := by
  rw [byteAt, getElem?_patch h, if_neg (by omega), byteAt]

/-- **An IPv4 header with a new length, another new field and its checksum.** -/
theorem setIPv4Checksum_fields {h v w : Bytes} (hlow : 20 ≤ h.length) (hhigh : h.length < 65536)
    (hv : v.length = 2) (hw : w.length = 2) {k : ℕ} (hk : 4 ≤ k) (hk' : k + 2 ≤ 10) :
    ∃ h', setIPv4Checksum (patch (patch h 2 v) k w) = h' ∧ h'.length = h.length ∧
      slice h' 2 2 = v ∧ slice h' k 2 = w ∧ fold (wordSum h') = 65535 ∧
      ∀ j, (j < 2 ∨ 4 ≤ j) → (j < k ∨ k + 2 ≤ j) → (j < 10 ∨ 12 ≤ j) → byteAt h' j = byteAt h j := by
  have hfit1 : 2 + v.length ≤ h.length := by omega
  have hlen1 := length_patch hfit1
  have hfit2 : k + w.length ≤ (patch h 2 v).length := by omega
  have hlen2 := length_patch hfit2
  obtain ⟨c, hc, hset, hfold⟩ := setIPv4Checksum_spec
    (show 12 ≤ (patch (patch h 2 v) k w).length by omega) (by omega)
  have hfit3 : 10 + c.length ≤ (patch (patch h 2 v) k w).length := by omega
  have hlen3 := length_patch hfit3
  refine ⟨_, hset, by omega, ?_, ?_, hfold, fun j h1 h2 h3 => ?_⟩
  · rw [slice_patch_of_disjoint hfit3 (by omega), slice_patch_of_disjoint hfit2 (by omega),
      slice_patch_self hfit1 hv.symm]
  · rw [slice_patch_of_disjoint hfit3 (by omega), slice_patch_self hfit2 hw.symm]
  · rw [byteAt_patch hfit3 (by omega), byteAt_patch hfit2 (by omega), byteAt_patch hfit1 (by omega)]

section Piece

variable {pkt : Bytes} {l : TcpLayout} (h : l.Describes pkt)

include h

theorem ipLen_ge_of_describes : (if l.v6 then 40 else 20) ≤ l.ipLen := by
  have hge := h.ipLen_ge
  have heq := h.ipLen_eq
  split
  · rw [heq, if_pos ‹_›]
  · exact hge

theorem length_take_ipLen : (pkt.take l.ipLen).length = l.ipLen := by
  have hle := h.hdrLen_le
  have htotal := h.total_le
  unfold TcpLayout.hdrLen at hle
  rw [List.length_take]
  omega

theorem length_take_hdrLen : (pkt.take l.hdrLen).length = l.hdrLen := by
  have hle := h.hdrLen_le
  have htotal := h.total_le
  rw [List.length_take]
  omega

theorem take_newBuf (chunk off : ℕ) : (newBuf pkt l chunk off).take l.ipLen = pkt.take l.ipLen := by
  have hle : l.ipLen ≤ l.hdrLen := Nat.le_add_right _ _
  have hlen := length_take_hdrLen h
  rw [newBuf, List.take_append_of_le_length (by omega), List.take_take, Nat.min_eq_left hle]

theorem drop_newBuf (chunk off : ℕ) : (newBuf pkt l chunk off).drop l.hdrLen =
    slice (l.payload pkt) off (chunkEnd pkt l chunk off - off) := by
  have hlen := length_take_hdrLen h
  rw [newBuf, List.drop_append_of_le_length (by omega), List.drop_eq_nil_of_le (by omega),
    List.nil_append]

theorem byteAt_newBuf (chunk off : ℕ) {j : ℕ} (hj : j < l.hdrLen) :
    byteAt (newBuf pkt l chunk off) j = byteAt pkt j := by
  have hlen := length_take_hdrLen h
  rw [newBuf, byteAt_append_left (by omega), byteAt_take hj]

theorem chunkEnd_le (chunk off : ℕ) : l.hdrLen + (chunkEnd pkt l chunk off - off) ≤ l.total := by
  have := h.length_payload
  have := h.hdrLen_le
  unfold chunkEnd
  omega

/-- **The IPv6 header of a segment.** -/
theorem newIP_v6 (chunk i off : ℕ) (hv6 : l.v6 = true) :
    (newIP pkt l chunk i off).length = l.ipLen ∧
    40 + getBE (slice (newIP pkt l chunk i off) 4 2) =
      l.hdrLen + (chunkEnd pkt l chunk off - off) ∧
    ∀ j < l.ipLen, (j < 4 ∨ 6 ≤ j) → byteAt (newIP pkt l chunk i off) j = byteAt pkt j := by
  have hge := h.ipLen_ge
  have hend := chunkEnd_le h chunk off
  have hlt := h.total_lt.2
  have hforty : l.ipLen = 40 := by rw [h.ipLen_eq, if_pos hv6]
  have hlen := length_take_ipLen h
  have hfits : 4 + (putBE 2 (l.tcpLen + (chunkEnd pkt l chunk off - off))).length ≤
      (pkt.take l.ipLen).length := by rw [length_putBE]; omega
  have hnew : newIP pkt l chunk i off =
      patch (pkt.take l.ipLen) 4 (putBE 2 (l.tcpLen + (chunkEnd pkt l chunk off - off))) := by
    simp only [newIP, hv6, if_true, take_newBuf h]
  rw [hnew]
  refine ⟨(length_patch hfits).trans hlen, ?_, fun j hj hout => ?_⟩
  · rw [slice_patch_self hfits (length_putBE _ _).symm, getBE_putBE_of_lt, TcpLayout.hdrLen, hforty,
      Nat.add_assoc]
    unfold TcpLayout.hdrLen at hend
    omega
  · rw [byteAt_patch hfits (by rwa [length_putBE]), byteAt_take hj]

variable {off : ℕ} (hoff : off < (l.payload pkt).length) (chunk i : ℕ)

include hoff

theorem length_newBuf : (newBuf pkt l chunk off).length =
    l.hdrLen + (chunkEnd pkt l chunk off - off) := by
  have hslice : (slice (l.payload pkt) off (chunkEnd pkt l chunk off - off)).length =
      chunkEnd pkt l chunk off - off := length_slice (by unfold chunkEnd; omega)
  rw [newBuf, List.length_append, length_take_hdrLen h, hslice]

/-- **The IPv4 header of a segment.** -/
theorem newIP_v4 (hv4 : l.v6 = false) :
    (newIP pkt l chunk i off).length = l.ipLen ∧
    getBE (slice (newIP pkt l chunk i off) 2 2) = l.hdrLen + (chunkEnd pkt l chunk off - off) ∧
    getBE (slice (newIP pkt l chunk i off) 4 2) = (getBE (slice pkt 4 2) + i) % 2 ^ 16 ∧
    fold (wordSum (newIP pkt l chunk i off)) = 65535 ∧
    ∀ j < l.ipLen, (j < 2 ∨ 6 ≤ j) → (j < 10 ∨ 12 ≤ j) →
      byteAt (newIP pkt l chunk i off) j = byteAt pkt j := by
  have hge := h.ipLen_ge
  have hend := chunkEnd_le h chunk off
  have hlt := h.total_lt.1
  have hlen := length_take_ipLen h
  have htotal : l.total < 65536 := by simpa [hv4] using hlt
  obtain ⟨ip, hset, hip, hL, hI, hfold, hothers⟩ := setIPv4Checksum_fields
    (show 20 ≤ (pkt.take l.ipLen).length by omega)
    (by rw [hlen]; unfold TcpLayout.hdrLen at hend; omega)
    (length_putBE 2 (newBuf pkt l chunk off).length) (length_putBE 2 (getBE (slice pkt 4 2) + i))
    (le_refl 4) (by norm_num)
  have hnew : newIP pkt l chunk i off = ip := by
    simp only [newIP, hv4, Bool.false_eq_true, if_false, take_newBuf h, hset]
  rw [hnew]
  refine ⟨hip.trans hlen, ?_, ?_, hfold, fun j hj hout hsum => ?_⟩
  · rw [hL, length_newBuf h hoff, getBE_putBE_of_lt (by omega)]
  · rw [hI, getBE_putBE]
    norm_num
  · rw [hothers j (by omega) (by omega) hsum, byteAt_take hj]

/-- **The TCP header and payload of a segment**, with the checksum set. -/
theorem newTCP_spec {ip : Bytes} (hip : ip.length = l.ipLen) :
    ∃ tcp, setTCPChecksum (ip ++ newTCP pkt l chunk off) l.v6 (newTCP pkt l chunk off) = tcp ∧
      tcp.length = l.tcpLen + (chunkEnd pkt l chunk off - off) ∧
      tcp.drop l.tcpLen = slice (l.payload pkt) off (chunkEnd pkt l chunk off - off) ∧
      getBE (slice tcp 4 4) = (getBE (slice pkt (l.ipLen + 4) 4) + off) % 2 ^ 32 ∧
      byteAt tcp 13 = (if chunkEnd pkt l chunk off ≠ (l.payload pkt).length
        then byteAt pkt (l.ipLen + 13) &&& ~~~(tcpFIN ||| tcpPSH) else byteAt pkt (l.ipLen + 13)) ∧
      (∀ j < l.tcpLen, (j < 4 ∨ 8 ≤ j) → j ≠ 13 → (j < 16 ∨ 18 ≤ j) →
        byteAt tcp j = byteAt pkt (l.ipLen + j)) ∧
      fold (wordSum (pseudoHeader (ip ++ tcp) l.v6 tcp.length ++ tcp)) = 65535 := by
  have hge := h.ipLen_ge
  have htcp := h.tcpLen_ge
  have hend := chunkEnd_le h chunk off
  have hlt := h.total_lt.2
  have hbig := ipLen_ge_of_describes h
  have hlen : ((newBuf pkt l chunk off).drop l.ipLen).length =
      l.tcpLen + (chunkEnd pkt l chunk off - off) := by
    rw [List.length_drop, length_newBuf h hoff, TcpLayout.hdrLen]
    omega
  have hfits : l.tcpLen + (chunkEnd pkt l chunk off - off) < 65536 := by
    unfold TcpLayout.hdrLen at hend
    omega
  -- sequence number and flags, then the checksum
  generalize hS : putBE 4 (getBE (slice pkt (l.ipLen + 4) 4) + off) = S
  generalize hF : (if chunkEnd pkt l chunk off ≠ (l.payload pkt).length
    then byteAt pkt (l.ipLen + 13) &&& ~~~(tcpFIN ||| tcpPSH) else byteAt pkt (l.ipLen + 13)) = f
  have hSlen : S.length = 4 := by rw [← hS, length_putBE]
  have hfit1 : 4 + S.length ≤ ((newBuf pkt l chunk off).drop l.ipLen).length := by omega
  have hlen1 := length_patch hfit1
  have hfit2 : 13 + [f].length ≤ (patch ((newBuf pkt l chunk off).drop l.ipLen) 4 S).length := by
    rw [hlen1, hlen, List.length_singleton]
    omega
  have hlen2 := length_patch hfit2
  have hnew : newTCP pkt l chunk off =
      patch (patch ((newBuf pkt l chunk off).drop l.ipLen) 4 S) 13 [f] := by
    simp only [newTCP, hS, hF]
  have hlen3 : (newTCP pkt l chunk off).length = l.tcpLen + (chunkEnd pkt l chunk off - off) := by
    rw [hnew, hlen2, hlen1, hlen]
  obtain ⟨c, hc, hset, hfold⟩ := setTCPChecksum_spec (ip ++ newTCP pkt l chunk off) l.v6
    (by rw [List.length_append, hip]; omega) (show 18 ≤ (newTCP pkt l chunk off).length by omega)
    (by omega)
  have hfit3 : 16 + c.length ≤ (newTCP pkt l chunk off).length := by omega
  have hlen4 := length_patch hfit3
  refine ⟨_, hset, hlen4.trans hlen3, ?_, ?_, ?_, fun j hj hseq hflags hsum => ?_, ?_⟩
  · rw [patch_drop hfit3 (by omega), hnew, patch_drop hfit2 (by rw [List.length_singleton]; omega),
      patch_drop hfit1 (by omega), List.drop_drop]
    exact drop_newBuf h chunk off
  · rw [slice_patch_of_disjoint hfit3 (by omega), hnew,
      slice_patch_of_disjoint hfit2 (by omega), slice_patch_self hfit1 hSlen.symm, ← hS, getBE_putBE]
    norm_num
  · rw [byteAt_patch hfit3 (by omega), hnew, byteAt, getElem?_patch hfit2, if_pos (by simp)]
    simp
  · rw [byteAt_patch hfit3 (by omega), hnew, byteAt_patch hfit2 (by rw [List.length_singleton]; omega),
      byteAt_patch hfit1 (by omega), byteAt_drop, byteAt_newBuf h chunk off]
    unfold TcpLayout.hdrLen
    omega
  · rw [pseudoHeader_append (by omega)] at hfold ⊢
    rwa [hlen4]

theorem length_newIP : (newIP pkt l chunk i off).length = l.ipLen := by
  cases hv : l.v6
  · exact (newIP_v4 h hoff chunk i hv).1
  · exact (newIP_v6 h chunk i off hv).1

theorem length_segment :
    (segment pkt l chunk i off).length = l.hdrLen + (chunkEnd pkt l chunk off - off) := by
  obtain ⟨tcp, hset, htcp, -⟩ := newTCP_spec h hoff chunk (length_newIP h hoff chunk i)
  simp only [segment, hset]
  rw [List.length_append, length_newIP h hoff, htcp, TcpLayout.hdrLen, Nat.add_assoc]

/-- **A segment that the loop emits.** -/
theorem piece_segment (hchunk : 0 < chunk) :
    Piece pkt l (l.hdrLen + chunk : ℕ) i off
      (decide (chunkEnd pkt l chunk off = (l.payload pkt).length)) (segment pkt l chunk i off) := by
  have hsize : chunkEnd pkt l chunk off - off ≤ chunk ∧ 0 < chunkEnd pkt l chunk off - off := by
    unfold chunkEnd
    omega
  have hge := h.ipLen_ge
  have htcpge := h.tcpLen_ge
  have hip := length_newIP h hoff chunk i
  have hlen := length_segment h hoff chunk i
  obtain ⟨tcp, hset, htcp, hdrop, hseq, hflags, hothers, hsum⟩ := newTCP_spec h hoff chunk hip
  have hseg : segment pkt l chunk i off = newIP pkt l chunk i off ++ tcp := by
    simp only [segment, hset]
  have hslice : ∀ k n, k + n ≤ l.ipLen →
      slice (segment pkt l chunk i off) k n = slice (newIP pkt l chunk i off) k n := by
    intro k n hk
    rw [hseg, slice_append_left _ _ (by omega)]
  refine ⟨by omega, by rw [hlen]; exact_mod_cast Nat.add_le_add_left hsize.1 _, ?_, ?_, ?_, ?_, ?_, ?_,
    ?_, ?_⟩
  · rw [hlen, Nat.add_sub_cancel_left, hseg, TcpLayout.hdrLen, ← List.drop_drop,
      List.drop_left' hip, hdrop]
  · rw [hseg, slice_append_add _ _ hip, hseq]
  · rw [hlen]
    split
    · rename_i hv
      rw [hslice 4 2 (by omega)]
      exact (newIP_v6 h chunk i off hv).2.1
    · rename_i hv
      rw [hslice 2 2 (by omega)]
      exact (newIP_v4 h hoff chunk i (by simpa using hv)).2.1
  · intro hv
    rw [hslice 4 2 (by omega)]
    exact (newIP_v4 h hoff chunk i hv).2.2.1
  · rw [hseg, byteAt_append_add _ _ hip, hflags]
    by_cases hlast : chunkEnd pkt l chunk off = (l.payload pkt).length <;> simp [hlast]
  · intro j hj hrew
    obtain ⟨hiprew, htcprew⟩ := not_or.mp hrew
    rw [hseg]
    by_cases hlow : j < l.ipLen
    · rw [byteAt_append_left (by omega)]
      cases hv : l.v6
      · rw [hv] at hiprew
        have hout : ¬((2 ≤ j ∧ j < 6) ∨ (10 ≤ j ∧ j < 12)) := by simpa using hiprew
        exact (newIP_v4 h hoff chunk i hv).2.2.2.2 j hlow (by omega) (by omega)
      · rw [hv] at hiprew
        have hout : ¬(4 ≤ j ∧ j < 6) := by simpa using hiprew
        exact (newIP_v6 h chunk i off hv).2.2 j hlow (by omega)
    · obtain ⟨k, rfl⟩ := Nat.exists_eq_add_of_le (Nat.le_of_not_lt hlow)
      rw [byteAt_append_add _ _ hip]
      unfold TcpLayout.hdrLen at hj
      exact hothers k (by omega) (by omega) (by omega) (by omega)
  · have hsub : (segment pkt l chunk i off).length - l.ipLen = tcp.length := by
      rw [hlen, htcp, TcpLayout.hdrLen]
      omega
    rw [hsub, hseg, List.drop_left' hip]
    exact hsum
  · intro hv
    rw [hseg, List.take_left' hip]
    exact (newIP_v4 h hoff chunk i hv).2.2.2.1

end Piece

/-! ## The loop -/

theorem splitLoop_eq (pkt : Bytes) (l : TcpLayout) {chunk : ℕ} (hchunk : 0 < chunk) (i off : ℕ) :
    splitLoop pkt l chunk hchunk i off =
      rounds (segment pkt l chunk) (l.payload pkt).length hchunk i off := by
  induction i, off using splitLoop.induct pkt l chunk hchunk with
  | case1 i off hoff ih => rw [splitLoop, rounds, if_pos hoff, if_pos hoff, ih]
  | case2 i off hoff => rw [splitLoop, rounds, if_neg hoff, if_neg hoff]

/-- A segment carries its chunk of the payload. -/
theorem drop_segment {pkt : Bytes} {l : TcpLayout} (h : l.Describes pkt) {chunk : ℕ}
    (hchunk : 0 < chunk) (i off : ℕ) (hoff : off < (l.payload pkt).length) :
    (segment pkt l chunk i off).drop l.hdrLen = ((l.payload pkt).drop off).take chunk := by
  have hpiece := (piece_segment h hoff chunk i hchunk).payload
  rw [length_segment h hoff, Nat.add_sub_cancel_left] at hpiece
  rw [hpiece, slice, List.take_eq_take_iff, List.length_drop, chunkEnd]
  omega

/-! ## The segmentation -/

/-- `out` is a TCP segmentation of the packet into pieces of at most `maxLen` bytes. The offset of a
piece is the number of payload bytes in those before it. -/
structure Segmented (pkt : Bytes) (l : TcpLayout) (maxLen : ℤ) (out : List Bytes) : Prop where
  two_le : 2 ≤ out.length
  payload : (out.map (List.drop l.hdrLen)).flatten = l.payload pkt
  pieces : ∀ i seg, out[i]? = some seg →
    Piece pkt l maxLen i ((out.take i).map (List.drop l.hdrLen)).flatten.length
      (decide (i + 1 = out.length)) seg

theorem segmented_splitLoop {pkt : Bytes} {l : TcpLayout} (h : l.Describes pkt) {chunk : ℕ}
    (hchunk : 0 < chunk) (hlong : chunk < (l.payload pkt).length) :
    Segmented pkt l (l.hdrLen + chunk : ℕ) (splitLoop pkt l chunk hchunk 0 0) := by
  rw [splitLoop_eq]
  obtain ⟨hwhole, hrounds⟩ := rounds_cut hchunk (drop_segment h hchunk)
  have hlt := lt_length_rounds (segment pkt l chunk) (l.payload pkt).length hchunk
  refine ⟨(hlt 1).mpr (by simpa using hlong), hwhole, fun i seg hseg => ?_⟩
  obtain ⟨hoff, rfl, hoffset, hlast⟩ := hrounds i seg hseg
  have hend : i + 1 = (rounds (segment pkt l chunk) (l.payload pkt).length hchunk 0 0).length ↔
      chunkEnd pkt l chunk (i * chunk) = (l.payload pkt).length := by
    rw [hlast, chunkEnd]
    omega
  rw [hoffset, decide_eq_decide.mpr hend]
  exact piece_segment h hoff chunk i hchunk

/-- The chunk size is not affected by overflow when the packet is split. -/
theorem toInt_sub_ofNat {maxLen : Int64} {n : ℕ} (hn : n < 2 ^ 17)
    (hpos : 0 < (maxLen - Int64.ofNat n).toInt) (hlt : (maxLen - Int64.ofNat n).toInt < 2 ^ 17) :
    maxLen.toInt = n + (maxLen - Int64.ofNat n).toInt := by
  have hsub := Int64.toInt_sub maxLen (Int64.ofNat n)
  rw [Int64.toInt_ofNat_of_lt (by omega)] at hsub
  have hlow := maxLen.le_toInt
  have hhigh := maxLen.toInt_lt
  -- a difference below the smallest integer wraps around to a large one
  rw [Int.bmod_def] at hsub
  split at hsub <;> omega

/-- **`splitTCP` is a correct segmentation**, for every packet and every maximal length; if it returns
`false`, it has emitted nothing. -/
theorem splitTCP_correct (pkt : Bytes) (maxLen : Int64) :
    ((splitTCP pkt maxLen).1 = true →
      ∃ l : TcpLayout, l.Describes pkt ∧ Segmented pkt l maxLen.toInt (splitTCP pkt maxLen).2) ∧
    ((splitTCP pkt maxLen).1 = false → (splitTCP pkt maxLen).2 = []) := by
  unfold splitTCP
  split
  · exact ⟨by simp, fun _ => rfl⟩
  · rename_i l hl
    have h := describes_of_locateTCP hl
    dsimp only
    split
    · exact ⟨by simp, fun _ => rfl⟩
    · rename_i hlong
      refine ⟨fun _ => ⟨l, h, ?_⟩, by simp⟩
      obtain ⟨hpos, hlt⟩ := not_or.mp hlong
      have hle := h.hdrLen_le
      have hpayload := h.length_payload
      have htotal : l.total < 65576 := by
        have := h.total_lt.1
        split at this <;> omega
      have hmax := toInt_sub_ofNat (n := l.hdrLen) (by omega) (not_le.mp hpos) (by omega)
      have hnat : maxLen.toInt =
          (l.hdrLen + (maxLen - Int64.ofNat l.hdrLen).toInt.toNat : ℕ) := by
        omega
      rw [hnat]
      exact segmented_splitLoop h (by omega) (by omega)

/-- An IPv4 packet with the flags PSH and ACK, 5 bytes of TCP payload and one byte past its end. -/
def samplePacket : Bytes :=
  [0x45, 0, 0, 45, 0xff, 0xff, 0x40, 0, 64, 6, 0, 0, 10, 0, 0, 1, 10, 0, 0, 2] ++
    [0, 80, 1, 2, 0xff, 0xff, 0xff, 0xfe, 0, 0, 0, 1, 0x50, 0x18, 1, 0, 0, 0, 0, 0] ++
    [1, 2, 3, 4, 5, 6]

/-- Cut into packets of at most 42 bytes; identification and sequence number wrap around. -/
theorem splitTCP_samplePacket : (splitTCP samplePacket 42).2.length = 3 ∧
    ∃ l : TcpLayout, l.Describes samplePacket ∧ Segmented samplePacket l 42 (splitTCP samplePacket 42).2 :=
  ⟨by decide +kernel, (splitTCP_correct samplePacket 42).1 (by decide +kernel)⟩

end ObsidianVPN.Server
