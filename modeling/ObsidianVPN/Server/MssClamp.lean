import ObsidianVPN.Lib.Buffer
import ObsidianVPN.Server.Mss

/-!
# The MSS option of SYN packets

The server raises the MSS of a client's SYN to that of an Ethernet host, and lowers the MSS of a SYN
for a client to what its tunnel takes. The TCP checksum is updated from the words that change.

* `mssOptionValue`: the MSS option of a TCP header; `mssScan_spec`;
* `setMSSValue`, `normalizeUplinkSYN`, `clampDownlinkSYN`: the updates, with checked accesses;
* `setMSSValue_append`: the update needs no byte behind the header;
* `MSSUpdated`: what an update may change, and what becomes of the checksum;
* **`syn_updates_correct`**: every update of a packet is such a one.
-/

namespace ObsidianVPN.Server

open ByteStr Checksum Buffer

/-! ## The option -/

def externalMSS4 : ℕ := 1460
def externalMSS6 : ℕ := 1440
def tcpSYN : UInt8 := 0x02
def tcpOptMSS : UInt8 := 2

/-- The loop of `mssOptionValue`. -/
def mssScan (hdr : Bytes) (i : ℕ) : Option ℕ :=
  if h : i < hdr.length then
    if hdr[i] = 0 then none
    else if hdr[i] = 1 then mssScan hdr (i + 1)
    else if h' : i + 1 < hdr.length then
      if hlen : hdr[i + 1] < 2 ∨ i + hdr[i + 1].toNat > hdr.length then none
      else if hdr[i] = tcpOptMSS ∧ hdr[i + 1] = 4 then some (i + 2)
      else
        have : 2 ≤ hdr[i + 1].toNat := UInt8.le_iff_toNat_le.mp (UInt8.not_lt.mp (not_or.mp hlen).1)
        mssScan hdr (i + hdr[i + 1].toNat)
    else none
  else none
termination_by hdr.length - i

/-- The offset of the value of the MSS option; `none` is `-1`. -/
def mssOptionValue (hdr : Bytes) : Option ℕ := mssScan hdr 20

/-- The option, its length and its value are inside the header. -/
theorem mssScan_spec {hdr : Bytes} {i idx : ℕ} (h : mssScan hdr i = some idx) :
    i + 2 ≤ idx ∧ idx + 2 ≤ hdr.length ∧ byteAt hdr (idx - 2) = tcpOptMSS ∧
      byteAt hdr (idx - 1) = 4 := by
  fun_induction mssScan hdr i with
  | case1 => cases h
  | case2 i hi h0 h1 ih =>
    obtain ⟨hlow, hrest⟩ := ih h
    exact ⟨by omega, hrest⟩
  | case3 => cases h
  | case4 i hi h0 h1 hi' hlen hopt =>
    obtain rfl := Option.some.inj h
    obtain ⟨hkind, hfour⟩ := hopt
    obtain ⟨-, hend⟩ := not_or.mp hlen
    rw [hfour] at hend
    refine ⟨le_rfl, by simpa using hend, ?_, ?_⟩
    · simpa [byteAt, hi] using hkind
    · simpa [byteAt, hi'] using hfour
  | case5 i hi h0 h1 hi' hlen hopt hge ih =>
    obtain ⟨hlow, hrest⟩ := ih h
    exact ⟨by omega, hrest⟩
  | case6 => cases h
  | case7 => cases h

/-! ## The updates -/

/-- `setMSSValue`; `none` is an access out of range. -/
def setMSSValue (tcp : Bytes) (idx mss : ℕ) : Option Bytes := do
  let start := idx / 2 * 2
  let stop := (idx + 3) / 2 * 2
  let oldSum := onesSum (← readAt tcp start (stop - start))
  let tcp ← writeAt tcp idx (putBE 2 mss)
  let newSum := onesSum (← readAt tcp start (stop - start))
  let m := foldSum oldSum
  let mNew := foldSum newSum
  let hc := getBE (← readAt tcp 16 2)
  writeAt tcp 16 (putBE 2 (not16 (foldSum ((not16 hc + not16 m + mNew) % 2 ^ 32))))

section Updates

variable (pkt : Bytes)

def TcpLayout.tcp (l : TcpLayout) : Bytes := slice pkt l.ipLen (l.total - l.ipLen)

/-- The MSS option of a SYN packet: where both functions start from. -/
def synOption : Option (TcpLayout × ℕ) :=
  match locateTCP pkt with
  | none => none
  | some l =>
    if byteAt (l.tcp pkt) 13 &&& tcpSYN = 0 then none
    else (mssOptionValue ((l.tcp pkt).take l.tcpLen)).map fun idx => (l, idx)

/-- The packet with a new value in its MSS option. -/
def setMSS (l : TcpLayout) (idx mss : ℕ) : Option Bytes :=
  (setMSSValue (l.tcp pkt) idx mss).map (patch pkt l.ipLen)

/-- The packet afterwards, and the MTU that is returned. -/
def normalizeUplinkSYN : Option (Bytes × ℕ) :=
  match synOption pkt with
  | none => some (pkt, 0)
  | some (l, idx) => do
    let mss := getBE (← readAt (l.tcp pkt) idx 2)
    let ext := if l.v6 then externalMSS6 else externalMSS4
    let overhead := if l.v6 then 60 else 40
    if mss < ext then return (← setMSS pkt l idx ext, mss + overhead)
    else return (pkt, mss + overhead)

/-- The packet afterwards. -/
def clampDownlinkSYN (limitMTU : Int64) : Option Bytes :=
  match synOption pkt with
  | none => some pkt
  | some (l, idx) => do
    let overhead := if l.v6 then 60 else 40
    let limit := (limitMTU - Int64.ofNat overhead).toInt
    if limit ≤ 0 then return pkt
    else
      let mss := getBE (← readAt (l.tcp pkt) idx 2)
      if mss > limit then setMSS pkt l idx (limit.toNat % 2 ^ 16)
      else return pkt

end Updates

/-! ## What an update does -/

/-- The TCP checksum of the packet is right. -/
def TcpLayout.Verifies (l : TcpLayout) (pkt : Bytes) : Prop :=
  fold (wordSum (pseudoHeader pkt l.v6 (l.tcp pkt).length ++ l.tcp pkt)) = 65535

/-- `pkt'` is the packet with the value `mss` in the MSS option at the offset `idx` of its TCP
header. -/
structure MSSUpdated (pkt : Bytes) (l : TcpLayout) (idx mss : ℕ) (pkt' : Bytes) : Prop where
  /-- the update runs on the TCP header alone -/
  inHeader : ∃ hdr', setMSSValue ((l.tcp pkt).take l.tcpLen) idx mss = some hdr' ∧
    hdr'.length = l.tcpLen ∧ pkt' = patch pkt l.ipLen hdr'
  layout : locateTCP pkt' = some l
  value : getBE (slice (l.tcp pkt') idx 2) = mss
  others : ∀ j, ¬(l.ipLen + idx ≤ j ∧ j < l.ipLen + idx + 2) →
    ¬(l.ipLen + 16 ≤ j ∧ j < l.ipLen + 18) → pkt'[j]? = pkt[j]?
  recomputed : l.Verifies pkt → setTCPChecksum pkt' l.v6 (l.tcp pkt') = l.tcp pkt'
  unverified : ¬l.Verifies pkt → ¬l.Verifies pkt'

section SetMSSValue

variable {tcp : Bytes} {idx : ℕ} (mss : ℕ)

/-- The words that the value is part of. -/
def window (idx : ℕ) : ℕ × ℕ := (idx / 2 * 2, (idx + 3) / 2 * 2 - idx / 2 * 2)

/-- The checksum that `setMSSValue` writes. -/
def newChecksum (tcp : Bytes) (idx mss : ℕ) : ℕ :=
  updated (getBE (slice tcp 16 2)) (wordSum (slice tcp (window idx).1 (window idx).2))
    (wordSum (slice (patch tcp idx (putBE 2 mss)) (window idx).1 (window idx).2))

theorem window_spec (idx : ℕ) : (window idx).1 ≤ idx ∧ idx + 2 ≤ (window idx).1 + (window idx).2 ∧
    (window idx).1 + (window idx).2 ≤ idx + 3 ∧ (window idx).1 % 2 = 0 ∧ (window idx).2 % 2 = 0 ∧
    idx ≤ (window idx).1 + 1 := by
  unfold window
  omega

theorem newChecksum_le (tcp : Bytes) (idx mss : ℕ) : newChecksum tcp idx mss ≤ 65535 :=
  Nat.sub_le _ _

/-- **What `setMSSValue` computes**, when the words of the value are there. -/
theorem setMSSValue_eq (hlow : 20 ≤ idx) (hhigh : (window idx).1 + (window idx).2 ≤ tcp.length) :
    setMSSValue tcp idx mss = some (patch (patch tcp idx (putBE 2 mss)) 16
      (putBE 2 (newChecksum tcp idx mss))) := by
  obtain ⟨hstart, hstop, hthree, -, -, hone⟩ := window_spec idx
  have hfit : idx + (putBE 2 mss).length ≤ tcp.length := by
    rw [length_putBE]
    omega
  have hlen := length_patch hfit
  have hhc : slice (patch tcp idx (putBE 2 mss)) 16 2 = slice tcp 16 2 :=
    slice_patch_of_disjoint hfit (by omega)
  have hsum : ∀ b : Bytes, onesSum (slice b (window idx).1 (window idx).2) =
      wordSum (slice b (window idx).1 (window idx).2) := by
    intro b
    exact (onesSum_slice b _ (by omega)).1
  have hread : ∀ b : Bytes, b.length = tcp.length → readAt b (window idx).1 (window idx).2 =
      some (slice b (window idx).1 (window idx).2) := by
    intro b hb
    exact if_pos (by omega)
  have hmod : (not16 (getBE (slice tcp 16 2)) +
      not16 (fold (wordSum (slice tcp (window idx).1 (window idx).2))) +
      fold (wordSum (slice (patch tcp idx (putBE 2 mss)) (window idx).1 (window idx).2))) % 2 ^ 32 =
      65535 - getBE (slice tcp 16 2) +
      (65535 - fold (wordSum (slice tcp (window idx).1 (window idx).2))) +
      fold (wordSum (slice (patch tcp idx (putBE 2 mss)) (window idx).1 (window idx).2)) := by
    have := (fold_spec
      (wordSum (slice (patch tcp idx (putBE 2 mss)) (window idx).1 (window idx).2))).1
    unfold not16
    omega
  have hwrite : writeAt tcp idx (putBE 2 mss) = some (patch tcp idx (putBE 2 mss)) := if_pos hfit
  have hread' : readAt (patch tcp idx (putBE 2 mss)) 16 2 = some (slice tcp 16 2) := by
    rw [readAt, if_pos (by omega), hhc]
  unfold setMSSValue
  change (do
    let old ← readAt tcp (window idx).1 (window idx).2
    let tcp₁ ← writeAt tcp idx (putBE 2 mss)
    let new ← readAt tcp₁ (window idx).1 (window idx).2
    let hc ← readAt tcp₁ 16 2
    writeAt tcp₁ 16 (putBE 2 (not16 (foldSum ((not16 (getBE hc) + not16 (foldSum (onesSum old)) +
      foldSum (onesSum new)) % 2 ^ 32))))) = _
  rw [hread tcp rfl, hwrite]
  simp only [Option.bind_eq_bind, Option.bind_some, hread _ hlen, hread', hsum, foldSum, hmod]
  exact if_pos (by rw [length_putBE]; omega)

/-- **The header alone**: nothing behind it is read or written. -/
theorem setMSSValue_append (rest : Bytes) (hlow : 20 ≤ idx)
    (hhigh : (window idx).1 + (window idx).2 ≤ tcp.length) :
    setMSSValue (tcp ++ rest) idx mss = (setMSSValue tcp idx mss).map (· ++ rest) := by
  obtain ⟨-, hstop, -⟩ := window_spec idx
  have hfit : idx + (putBE 2 mss).length ≤ tcp.length := by
    rw [length_putBE]
    omega
  have hlen := length_patch hfit
  have hchecksum : newChecksum (tcp ++ rest) idx mss = newChecksum tcp idx mss := by
    rw [newChecksum, patch_append rest hfit, slice_append_left _ _ (by omega),
      slice_append_left _ _ hhigh, slice_append_left _ _ (by omega), newChecksum]
  rw [setMSSValue_eq mss hlow (by rw [List.length_append]; omega), setMSSValue_eq mss hlow hhigh,
    hchecksum,
    patch_append rest hfit, patch_append rest (by rw [length_putBE]; omega)]
  rfl

end SetMSSValue

/-! ## The checksum -/

section Sums

variable {tcp tcp' : Bytes} {idx mss : ℕ} (hlow : 20 ≤ idx)
  (hhigh : (window idx).1 + (window idx).2 ≤ tcp.length) (hmss : 0 < mss) (hmss' : mss < 65536)
  (htcp' : tcp' = patch (patch tcp idx (putBE 2 mss)) 16 (putBE 2 (newChecksum tcp idx mss)))

include hlow hhigh hmss hmss' htcp'

/-- **The sums before and after**, with what the pseudo-header adds. -/
theorem setMSSValue_sums (s : ℕ) :
    (s + wordSum tcp') % 65535 = (s + wordSum tcp) % 65535 ∧
    ((s + wordSum tcp) % 65535 = 0 →
      newChecksum tcp idx mss = 65535 - fold (s + wordSum (patch tcp' 16 [0, 0]))) := by
  obtain ⟨hstart, hstop, hthree, heven, heven', hone⟩ := window_spec idx
  have hfit : idx + (putBE 2 mss).length ≤ tcp.length := by
    rw [length_putBE]
    omega
  have hle := newChecksum_le tcp idx mss
  have hhc : getBE (slice tcp 16 2) < 65536 := getBE_slice_lt tcp 16 2
  -- the value, then the checksum
  have hsum₁ := wordSum_patch_window (v := putBE 2 mss) hstart (by rw [length_putBE]; omega) hhigh
    heven heven'
  have hslice := slice_patch_of_disjoint hfit (show 16 + 2 ≤ idx ∨ _ from .inl (by omega))
  have hmem : ∀ x ∈ putBE 2 mss,
      x ∈ slice (patch tcp idx (putBE 2 mss)) (window idx).1 (window idx).2 := by
    intro x hx
    have hslice : x ∈ slice (patch tcp idx (putBE 2 mss)) idx 2 := by
      rwa [slice_patch_self hfit (length_putBE 2 mss).symm]
    exact mem_of_mem_slice hslice hstart hstop
  have hlen := length_patch hfit
  unfold newChecksum at htcp' hle ⊢
  generalize patch tcp idx (putBE 2 mss) = tcp₁ at *
  have hsum₂ : ∀ v : Bytes, v.length = 2 →
      wordSum (patch tcp₁ 16 v) + getBE (slice tcp 16 2) = wordSum tcp₁ + wordSum v := by
    intro v hv
    have hwindow := wordSum_patch_window (b := tcp₁) (v := v) (n := 2) (le_refl 16) (by omega)
      (by omega) rfl rfl
    rwa [slice_patch_self (by omega) hv.symm, hslice, wordSum_two (length_slice (by omega))] at hwindow
  have hzero : patch tcp' 16 [0, 0] = patch tcp₁ 16 [0, 0] := by
    rw [htcp', patch_patch (by rw [length_putBE]; omega) (by simp)]
  have hpos : 0 < wordSum (slice tcp₁ (window idx).1 (window idx).2) := by
    have hvalue : 0 < wordSum (putBE 2 mss) := by
      rwa [wordSum_putBE_two, Nat.mod_eq_of_lt hmss']
    obtain ⟨x, hx, hx0⟩ := wordSum_pos_iff.mp hvalue
    exact wordSum_pos_iff.mpr ⟨x, hmem x hx, hx0⟩
  have hsplit := wordSum_split (show (window idx).1 + (window idx).2 ≤
    (patch tcp₁ 16 [0, 0]).length by rw [length_patch (by simp; omega)]; omega) heven heven'
  rw [slice_patch_of_disjoint (by simp; omega) (.inr (by simp; omega))] at hsplit
  generalize wordSum (slice tcp₁ (window idx).1 (window idx).2) = m' at *
  generalize wordSum (slice tcp (window idx).1 (window idx).2) = m at *
  generalize getBE (slice tcp 16 2) = hc at *
  have hsum_zero := hsum₂ [0, 0] rfl
  have hsum_new : wordSum tcp' + hc = wordSum tcp₁ + updated hc m m' := by
    rw [htcp', hsum₂ _ (length_putBE 2 _), wordSum_putBE_two, Nat.mod_eq_of_lt (by omega)]
  have hnil : wordSum [0, 0] = 0 := rfl
  -- the sum of the words that do not change
  obtain ⟨rest, hrest⟩ : ∃ rest, s + wordSum (patch tcp₁ 16 [0, 0]) = rest + m' :=
    ⟨s + wordSum (patch tcp₁ 16 [0, 0]) - m', by omega⟩
  have hold : s + wordSum tcp = rest + hc + m := by omega
  have hnew : s + wordSum tcp' = rest + updated hc m m' + m' := by omega
  rw [hnew, hold, hzero, hrest]
  exact ⟨updated_mod hhc rest, updated_eq hhc hpos⟩

end Sums

/-! ## The packet -/

/-- The layout is read from the bytes before the checksum. -/
theorem locateTCP_congr {pkt pkt' : Bytes} {l : TcpLayout} (h : locateTCP pkt = some l)
    (hlen : pkt'.length = pkt.length) (hbytes : ∀ j < l.ipLen + 16, pkt'[j]? = pkt[j]?) :
    locateTCP pkt' = some l := by
  have hbyte : ∀ j < l.ipLen + 16, byteAt pkt' j = byteAt pkt j := by
    intro j hj
    rw [byteAt, hbytes j hj, byteAt]
  have hslice : ∀ off n, off + n ≤ 16 → slice pkt' off n = slice pkt off n := by
    intro off n hn
    apply List.ext_getElem?
    intro j
    rw [getElem?_slice, getElem?_slice]
    split
    · exact hbytes _ (by omega)
    · rfl
  have hip : locateIP pkt' = locateIP pkt := by
    simp only [locateIP, hlen, hbyte 0 (by omega), hbyte 6 (by omega), hbyte 9 (by omega),
      hslice 2 2 (by omega), hslice 4 2 (by omega), hslice 6 2 (by omega)]
  unfold locateTCP at h ⊢
  rw [hip]
  cases hl : locateIP pkt with
  | none => rw [hl] at h; cases h
  | some l₀ =>
    rw [hl] at h
    have hipLen : l₀.ipLen = l.ipLen := by
      dsimp only at h
      split_ifs at h
      cases h
      rfl
    dsimp only at h ⊢
    rwa [hbyte (l₀.ipLen + 12) (by omega)]

section Packet

variable {pkt : Bytes} {l : TcpLayout} (h : l.Describes pkt)

include h

theorem length_tcp : (l.tcp pkt).length = l.total - l.ipLen := by
  have htotal := h.total_le
  have hhdr := h.hdrLen_le
  unfold TcpLayout.hdrLen at hhdr
  exact length_slice (by omega)

theorem pseudoSum_patch {v : Bytes} (hv : l.ipLen + v.length ≤ pkt.length) (n : ℕ) :
    pseudoSum (patch pkt l.ipLen v) l.v6 n = pseudoSum pkt l.v6 n := by
  have hip := ipLen_ge_of_describes h
  unfold pseudoSum
  cases hv6 : l.v6
  · have : 20 ≤ l.ipLen := by simpa [hv6] using hip
    have hslice : slice (patch pkt l.ipLen v) 12 8 = slice pkt 12 8 :=
      slice_patch_of_disjoint hv (.inl (by omega))
    simp only [Bool.false_eq_true, if_false, hslice]
  · have : 40 ≤ l.ipLen := by simpa [hv6] using hip
    have hslice : slice (patch pkt l.ipLen v) 8 32 = slice pkt 8 32 :=
      slice_patch_of_disjoint hv (.inl (by omega))
    simp only [if_true, hslice]

theorem verifies_iff :
    l.Verifies pkt ↔
      (pseudoSum pkt l.v6 (l.total - l.ipLen) + wordSum (l.tcp pkt)) % 65535 = 0 := by
  have hlt := h.total_lt.2
  have hhdr := h.hdrLen_le
  have hip := ipLen_ge_of_describes h
  have htotal := h.total_le
  unfold TcpLayout.hdrLen at hhdr
  rw [TcpLayout.Verifies, length_tcp h, wordSum_pseudoHeader pkt l.v6 (by omega) hlt,
    ← pseudoSum_eq pkt l.v6 hlt, fold_eq_ones_iff]
  rw [pseudoSum_eq pkt l.v6 hlt]
  omega

section Update

variable {idx : ℕ} (mss : ℕ) (hhigh : idx + 2 ≤ l.tcpLen)

include hhigh

/-- The header is a whole number of words, so that it holds those of the value. -/
theorem window_le_tcpLen : (window idx).1 + (window idx).2 ≤ l.tcpLen := by
  obtain ⟨-, -, hthree, heven, heven', -⟩ := window_spec idx
  have htcp := h.tcpLen_eq
  omega

/-- The TCP part of the packet after the update. -/
theorem length_newTCPPart {v c : Bytes} (hv : v.length = 2) (hc : c.length = 2) :
    idx + v.length ≤ (l.tcp pkt).length ∧
    16 + c.length ≤ (patch (l.tcp pkt) idx v).length ∧
    (patch (patch (l.tcp pkt) idx v) 16 c).length = l.total - l.ipLen ∧
    l.ipLen + (patch (patch (l.tcp pkt) idx v) 16 c).length ≤ pkt.length := by
  have hlen := length_tcp h
  have htcp := h.tcpLen_ge
  have hhdr := h.hdrLen_le
  have htotal := h.total_le
  unfold TcpLayout.hdrLen at hhdr
  have hfit : idx + v.length ≤ (l.tcp pkt).length := by omega
  have hlen₁ := length_patch hfit
  have hfit' : 16 + c.length ≤ (patch (l.tcp pkt) idx v).length := by omega
  have hlen₂ := length_patch hfit'
  exact ⟨hfit, hfit', by omega, by omega⟩

/-- The update on the header alone gives the same packet. -/
theorem setMSSValue_header (hlow : 20 ≤ idx) :
    ∃ hdr', setMSSValue ((l.tcp pkt).take l.tcpLen) idx mss = some hdr' ∧ hdr'.length = l.tcpLen ∧
      setMSS pkt l idx mss = some (patch pkt l.ipLen hdr') := by
  have hlen := length_tcp h
  have hhdr := h.hdrLen_le
  have htotal := h.total_le
  have htcp := h.tcpLen_ge
  unfold TcpLayout.hdrLen at hhdr
  have htake : ((l.tcp pkt).take l.tcpLen).length = l.tcpLen := by
    rw [List.length_take]
    omega
  have hwindow := htake.symm ▸ window_le_tcpLen h hhigh
  have hfit : idx + (putBE 2 mss).length ≤ ((l.tcp pkt).take l.tcpLen).length := by
    rw [length_putBE]
    omega
  have hset := setMSSValue_eq mss hlow hwindow
  have happend := setMSSValue_append mss ((l.tcp pkt).drop l.tcpLen) hlow hwindow
  have hdrop : (l.tcp pkt).drop l.tcpLen =
      slice pkt (l.ipLen + l.tcpLen) (l.total - l.ipLen - l.tcpLen) := by
    rw [TcpLayout.tcp, slice, slice, List.drop_take, List.drop_drop]
  have hlength := length_patch hfit
  have hlength' := length_patch (v := putBE 2 (newChecksum ((l.tcp pkt).take l.tcpLen) idx mss))
    (show 16 + _ ≤ (patch ((l.tcp pkt).take l.tcpLen) idx (putBE 2 mss)).length by
      rw [length_putBE]; omega)
  rw [List.take_append_drop, hset, Option.map_some, hdrop] at happend
  refine ⟨_, hset, by omega, ?_⟩
  rw [setMSS, happend, Option.map_some]
  generalize patch (patch ((l.tcp pkt).take l.tcpLen) idx (putBE 2 mss)) 16
    (putBE 2 (newChecksum ((l.tcp pkt).take l.tcpLen) idx mss)) = hdr' at *
  have hlast : l.tcpLen = hdr'.length := by omega
  rw [hlast, patch_append_slice (by omega)]

theorem getElem?_updated {v c : Bytes} (hv : v.length = 2) (hc : c.length = 2) {j : ℕ}
    (hvalue : ¬(l.ipLen + idx ≤ j ∧ j < l.ipLen + idx + 2))
    (hsum : ¬(l.ipLen + 16 ≤ j ∧ j < l.ipLen + 18)) :
    (patch pkt l.ipLen (patch (patch (l.tcp pkt) idx v) 16 c))[j]? = pkt[j]? := by
  obtain ⟨hfit, hfit', hlen, hle⟩ := length_newTCPPart h hhigh hv hc
  rw [getElem?_patch hle]
  split
  · rename_i hj
    rw [getElem?_patch hfit', if_neg (by omega), getElem?_patch hfit, if_neg (by omega),
      TcpLayout.tcp, getElem?_slice, if_pos (by omega)]
    congr 1
    omega
  · rfl

end Update

/-- **One update of a packet.** -/
theorem setMSS_spec {idx mss : ℕ} (hloc : locateTCP pkt = some l) (hlow : 20 ≤ idx)
    (hhigh : idx + 2 ≤ l.tcpLen) (hmss : 0 < mss) (hmss' : mss < 65536) :
    ∃ pkt', setMSS pkt l idx mss = some pkt' ∧ MSSUpdated pkt l idx mss pkt' := by
  have hlen := length_tcp h
  have hhdr := h.hdrLen_le
  have hip := h.ipLen_ge
  have hlt := h.total_lt.2
  have htcp := h.tcpLen_ge
  unfold TcpLayout.hdrLen at hhdr
  have hwindow := window_le_tcpLen h hhigh
  have hvlen := length_putBE 2 mss
  have hclen := length_putBE 2 (newChecksum (l.tcp pkt) idx mss)
  obtain ⟨hfit, hfit', hlen', hle⟩ := length_newTCPPart h hhigh hvlen hclen
  have hwindow' : (window idx).1 + (window idx).2 ≤ (l.tcp pkt).length := by omega
  have hset := setMSSValue_eq mss hlow hwindow'
  have hsums := setMSSValue_sums hlow hwindow' hmss hmss' rfl
    (pseudoSum pkt l.v6 (l.total - l.ipLen))
  have hothers := fun j => getElem?_updated h hhigh hvlen hclen (j := j)
  generalize hpkt' : patch pkt l.ipLen (patch (patch (l.tcp pkt) idx (putBE 2 mss)) 16
    (putBE 2 (newChecksum (l.tcp pkt) idx mss))) = pkt' at *
  have hlength : pkt'.length = pkt.length := by rw [← hpkt', length_patch hle]
  have hloc' : locateTCP pkt' = some l :=
    locateTCP_congr hloc hlength fun j hj => hothers j (by omega) (by omega)
  have h' := describes_of_locateTCP hloc'
  have htcp' : l.tcp pkt' = patch (patch (l.tcp pkt) idx (putBE 2 mss)) 16
      (putBE 2 (newChecksum (l.tcp pkt) idx mss)) := by
    rw [TcpLayout.tcp, ← hpkt', slice_patch_self hle hlen'.symm]
  have hpseudo : pseudoSum pkt' l.v6 (l.total - l.ipLen) = pseudoSum pkt l.v6 (l.total - l.ipLen) := by
    rw [← hpkt', pseudoSum_patch h hle]
  rw [← htcp'] at hsums
  have hsetMSS : setMSS pkt l idx mss = some pkt' := by rw [setMSS, hset, Option.map_some, hpkt']
  obtain ⟨hdr', hhdr', hhdrlen, hsame⟩ := setMSSValue_header h mss hhigh hlow
  have heq : pkt' = patch pkt l.ipLen hdr' := Option.some.inj (hsetMSS.symm.trans hsame)
  refine ⟨pkt', hsetMSS, ⟨hdr', hhdr', hhdrlen, heq⟩, hloc', ?_, hothers, ?_, ?_⟩
  · rw [htcp', slice_patch_of_disjoint hfit' (by omega), slice_patch_self hfit hvlen.symm,
      getBE_putBE_of_lt hmss']
  · intro hver
    rw [setTCPChecksum_eq pkt' l.v6 (by rw [htcp', hlen']; omega) (by rw [htcp', hlen']; omega),
      length_tcp h', hpseudo, ← hsums.2 ((verifies_iff h).mp hver), htcp', patch_patch hfit' (by simp)]
  · intro hver
    rwa [verifies_iff h', hpseudo, hsums.1, ← verifies_iff h]

end Packet

/-! ## The two directions -/

/-- What is known of a SYN packet with an MSS option. -/
theorem synOption_spec {pkt : Bytes} {l : TcpLayout} {idx : ℕ} (h : synOption pkt = some (l, idx)) :
    locateTCP pkt = some l ∧ byteAt (l.tcp pkt) 13 &&& tcpSYN ≠ 0 ∧
      mssOptionValue ((l.tcp pkt).take l.tcpLen) = some idx := by
  unfold synOption at h
  split at h
  · cases h
  · rename_i l₀ hloc
    split at h
    · cases h
    · rename_i hsyn
      obtain ⟨idx₀, hidx, heq⟩ := Option.map_eq_some_iff.mp h
      obtain ⟨rfl, rfl⟩ := Prod.mk.inj heq
      exact ⟨hloc, hsyn, hidx⟩

/-- The value is inside the header. -/
theorem synOption_bounds {pkt : Bytes} {l : TcpLayout} {idx : ℕ}
    (h : synOption pkt = some (l, idx)) :
    20 ≤ idx ∧ idx + 2 ≤ l.tcpLen ∧
      readAt (l.tcp pkt) idx 2 = some (slice (l.tcp pkt) idx 2) := by
  obtain ⟨hloc, -, hidx⟩ := synOption_spec h
  obtain ⟨hlow, hhigh, -⟩ := mssScan_spec hidx
  have hdesc := describes_of_locateTCP hloc
  have hlen := length_tcp hdesc
  have hhdr := hdesc.hdrLen_le
  unfold TcpLayout.hdrLen at hhdr
  rw [List.length_take] at hhigh
  exact ⟨by omega, by omega, if_pos (by omega)⟩

section Directions

variable {pkt : Bytes} {l : TcpLayout} {idx : ℕ} (hopt : synOption pkt = some (l, idx))

include hopt

theorem setMSS_of_synOption (mss : ℕ) (hpos : 0 < mss) (hlt : mss < 65536) :
    ∃ pkt', setMSS pkt l idx mss = some pkt' ∧ MSSUpdated pkt l idx mss pkt' := by
  obtain ⟨hlow, hhigh, -⟩ := synOption_bounds hopt
  have hloc := (synOption_spec hopt).1
  exact setMSS_spec (describes_of_locateTCP hloc) hloc hlow hhigh hpos hlt

theorem normalizeUplinkSYN_spec : ∃ pkt' mtu, normalizeUplinkSYN pkt = some (pkt', mtu) ∧
    (pkt' = pkt ∨ MSSUpdated pkt l idx (if l.v6 then externalMSS6 else externalMSS4) pkt') := by
  obtain ⟨pkt', hset, hupd⟩ := setMSS_of_synOption hopt
    (if l.v6 then externalMSS6 else externalMSS4) (by split <;> decide) (by split <;> decide)
  have hread := (synOption_bounds hopt).2.2
  simp only [normalizeUplinkSYN, hopt, hread, hset, Option.bind_eq_bind, Option.bind_some]
  by_cases hsmall : getBE (slice (l.tcp pkt) idx 2) < if l.v6 then externalMSS6 else externalMSS4
  · exact ⟨pkt', _, if_pos hsmall, .inr hupd⟩
  · exact ⟨pkt, _, if_neg hsmall, .inl rfl⟩

theorem clampDownlinkSYN_spec (limitMTU : Int64) :
    ∃ pkt', clampDownlinkSYN pkt limitMTU = some pkt' ∧ (pkt' = pkt ∨
      ∃ mss : ℕ, limitMTU.toInt = (if l.v6 then 60 else 40 : ℕ) + mss ∧
        MSSUpdated pkt l idx mss pkt') := by
  have hread := (synOption_bounds hopt).2.2
  have hold : getBE (slice (l.tcp pkt) idx 2) < 65536 := getBE_slice_lt _ idx 2
  simp only [clampDownlinkSYN, hopt, hread, Option.bind_eq_bind, Option.bind_some]
  have hsmall : (if l.v6 then 60 else 40) < 2 ^ 17 := by split <;> norm_num
  have hwrap : ∀ hpos hlt, limitMTU.toInt = _ := toInt_sub_ofNat hsmall
  generalize (limitMTU - Int64.ofNat (if l.v6 then 60 else 40)).toInt = limit at *
  by_cases hpos : limit ≤ 0
  · exact ⟨pkt, if_pos hpos, .inl rfl⟩
  · rw [if_neg hpos]
    by_cases hbig : (getBE (slice (l.tcp pkt) idx 2) : ℤ) > limit
    · -- the limit is below a 16-bit value, so that neither conversion changes it
      have hmod : limit.toNat % 2 ^ 16 = limit.toNat := Nat.mod_eq_of_lt (by omega)
      obtain ⟨pkt', hset, hupd⟩ := setMSS_of_synOption hopt limit.toNat (by omega) (by omega)
      have hlimit := hwrap (by omega) (by omega)
      rw [if_pos hbig, hmod, hset]
      exact ⟨pkt', rfl, .inr ⟨limit.toNat, by omega, hupd⟩⟩
    · exact ⟨pkt, if_neg hbig, .inl rfl⟩

end Directions

/-- **Every update of a SYN** is made in the TCP header, changes the MSS and the checksum only, and
leaves the checksum as right or wrong as it was; a right one is the one computed anew. No access is
out of range. -/
theorem syn_updates_correct (pkt : Bytes) (limitMTU : Int64) :
    (∃ pkt' mtu, normalizeUplinkSYN pkt = some (pkt', mtu) ∧ (pkt' = pkt ∨
      ∃ l idx, synOption pkt = some (l, idx) ∧
        MSSUpdated pkt l idx (if l.v6 then externalMSS6 else externalMSS4) pkt')) ∧
    ∃ pkt', clampDownlinkSYN pkt limitMTU = some pkt' ∧ (pkt' = pkt ∨
      ∃ l idx, ∃ mss : ℕ, synOption pkt = some (l, idx) ∧
        limitMTU.toInt = (if l.v6 then 60 else 40 : ℕ) + mss ∧ MSSUpdated pkt l idx mss pkt') := by
  cases hopt : synOption pkt with
  | none =>
    refine ⟨⟨pkt, 0, ?_, .inl rfl⟩, pkt, ?_, .inl rfl⟩
    · rw [normalizeUplinkSYN, hopt]
    · rw [clampDownlinkSYN, hopt]
  | some found =>
    obtain ⟨l, idx⟩ := found
    obtain ⟨up, mtu, hup, hupd⟩ := normalizeUplinkSYN_spec hopt
    obtain ⟨down, hdown, hclamp⟩ := clampDownlinkSYN_spec hopt limitMTU
    refine ⟨⟨up, mtu, hup, hupd.imp_right fun h => ⟨l, idx, rfl, h⟩⟩, down, hdown,
      hclamp.imp_right ?_⟩
    rintro ⟨mss, hmss, h⟩
    exact ⟨l, idx, mss, rfl, hmss, h⟩

/-- A SYN with the MSS 1400 at an odd offset, behind a NOP. -/
def sampleSYN : Bytes :=
  [0x45, 0, 0, 48, 0, 1, 0x40, 0, 64, 6, 0, 0, 10, 0, 0, 1, 10, 0, 0, 2] ++
    [0, 80, 1, 2, 0, 0, 0, 1, 0, 0, 0, 0, 0x70, 0x02, 1, 0, 0, 0, 0, 0] ++
    [1, 2, 4, 5, 120, 1, 1, 0]

theorem normalizeUplinkSYN_sampleSYN : ∃ pkt', normalizeUplinkSYN sampleSYN = some (pkt', 1440) ∧
    ∃ l, synOption sampleSYN = some (l, 23) ∧ MSSUpdated sampleSYN l 23 1460 pkt' := by
  obtain ⟨pkt', mtu, heq, hsame | ⟨l, idx, hopt, hupd⟩⟩ := (syn_updates_correct sampleSYN 0).1
  · have : (normalizeUplinkSYN sampleSYN).map Prod.fst ≠ some sampleSYN := by decide +kernel
    exact absurd (by rw [heq, hsame]; rfl) this
  · have hmtu : (normalizeUplinkSYN sampleSYN).map Prod.snd = some 1440 := by decide +kernel
    have hidx : (synOption sampleSYN).map (fun p => (p.1.v6, p.2)) = some (false, 23) := by
      decide +kernel
    rw [heq] at hmtu
    rw [hopt] at hidx
    obtain rfl : mtu = 1440 := Option.some.inj hmtu
    obtain ⟨hv4, rfl⟩ := Prod.mk.inj (Option.some.inj hidx)
    refine ⟨pkt', heq, l, hopt, ?_⟩
    simpa [show l.v6 = false from hv4, externalMSS4] using hupd

end ObsidianVPN.Server
