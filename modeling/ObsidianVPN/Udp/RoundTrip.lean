import ObsidianVPN.Udp.Endpoints

/-!
# The round trip of a datagram

A datagram of one end meets the other end, which has the same keys and the same padding switch and
has not seen the counter yet.

* `Facing`, `FacingBack`: a client and a session of a server that understand each other, for the
  next datagram of the client and for the next one of the session;
* `receive_of_open`, `recv_of_open`: what the receivers do with a datagram they can open;
* `Fits`: the scratch buffer of `UDPChannel.Send` has room for the padded plaintext;
* **`datagram_roundTrip_iff`**: a payload arrives exactly when it is framable, and from the client
  when it also fits the buffer; `Recv` reports bytes it has not stored exactly when the payload
  is longer than the destination.
-/

namespace ObsidianVPN.Udp

open ByteStr

variable {U : UDPCiphers}

/-! ## Datagrams with a STUN header -/

/-- Below `2 ^ 16` bytes the length field loses nothing. -/
theorem buildDatagram_stun (hU : U.AEADLawful) {cfg : UDPSettings} (hstun : cfg.enableSTUN = true)
    {msgType : ℕ} {key hp : Bytes} {tag : Tag} {ctr : ℕ} {plain : Bytes} {bufCap : ℕ} {r : SendDraws}
    (hlen : plain.length + 28 < 2 ^ 16) :
    buildDatagram U cfg msgType key hp tag ctr plain bufCap r =
      if bufCap < plain.length + 48 then .error "runtime error: slice bounds out of range"
      else .ok (writeSTUNHeader (plain.length + 28) msgType r.txID ++
        sealPacket U key hp tag ctr plain) := by
  have hpacket := length_sealPacket hU key hp tag ctr plain
  have hmod : (plain.length + 28) % 2 ^ 16 = plain.length + 28 := Nat.mod_eq_of_lt hlen
  have hcap : bufCap < stunHeaderSize + (plain.length + 28) ↔ bufCap < plain.length + 48 := by
    rw [stunHeaderSize]
    omega
  simp only [buildDatagram, UDPSettings.placedOffset, hstun, if_true, hpacket, hcap, hmod]
  rw [List.take_of_length_le hpacket.le]

theorem packetData_stun (hU : U.AEADLawful) {msgType : ℕ}
    (htype : (putBE 2 msgType).getD 0 0 &&& 0xC0 = 0) (msgLen txID : ℕ) (key hp : Bytes) (tag : Tag)
    (ctr : ℕ) (plain : Bytes) :
    packetData (writeSTUNHeader msgLen msgType txID ++ sealPacket U key hp tag ctr plain) =
      some (sealPacket U key hp tag ctr plain) := by
  have hpacket := length_sealPacket hU key hp tag ctr plain
  rw [packetData]
  simp only [headerOffset_stun htype, List.length_append, length_writeSTUNHeader, hpacket]
  rw [if_neg (by simp only [udpHeaderSize, udpTagSize, udpCounterSize, tagSize]; omega),
    List.drop_left' (length_writeSTUNHeader ..)]

/-! ## The receivers -/

/-- A datagram that opens, with a counter that is new, is offered to the queue or echoed. -/
theorem receive_of_open {srv : UDPServer} {a : Arrival} {i : ℕ} {s : UDPSession} {ctr : ℕ}
    {plain : Bytes} (hopen : srv.mux.openDatagram U a.datagram = some (i, s, ctr, plain))
    {w : Replay} (hfresh : (srv.states i).replay.check ctr = some (true, w)) {out : Bytes}
    (hne : out ≠ []) : (∃ srv', srv.receive U a = some (.offered i out, srv')) ↔
      unframe (srv.states i).settings.useBucketPadding plain = out := by
  simp only [UDPServer.receive, hopen, hfresh, Option.map_some, not_true_eq_false, if_false]
  split
  · rename_i hempty
    refine iff_of_false (by simp) fun heq => hne ?_
    rw [← heq]
    exact List.length_eq_zero_iff.mp hempty
  · simp

theorem GoSlice.length_bytes (dst : GoSlice) : dst.bytes.length = dst.len := by
  rw [GoSlice.bytes, List.length_take, Nat.min_eq_left dst.len_le]

theorem GoSlice.len_appendEmpty (dst : GoSlice) (src : Bytes) : (dst.appendEmpty src).len = dst.len := by
  unfold GoSlice.appendEmpty
  split <;> rfl

theorem GoSlice.take_appendEmpty {dst : GoSlice} {src : Bytes} (h : src.length ≤ dst.len) :
    (dst.appendEmpty src).bytes.take src.length = src := by
  have hle := dst.len_le
  have hfit : src.length ≤ dst.mem.length := by omega
  simp only [GoSlice.bytes, GoSlice.appendEmpty, hfit, dif_pos, List.take_take, Nat.min_eq_left h,
    List.take_left]

theorem GoSlice.take_copy (dst : GoSlice) {src : Bytes} (h : src.length ≤ dst.len) :
    (dst.copy src).bytes.take src.length = src := by
  simp only [GoSlice.bytes, GoSlice.copy, List.take_of_length_le h, List.take_take,
    Nat.min_eq_left h, List.take_left]

/-- More bytes than a slice has elements are not in it. -/
theorem GoSlice.take_bytes_ne {dst : GoSlice} {out : Bytes} (h : dst.len < out.length) :
    dst.bytes.take out.length ≠ out := by
  intro heq
  have := congrArg List.length heq
  rw [List.length_take, dst.length_bytes] at this
  omega

/-- `Recv` reports the length of the payload, and stores it if the destination is long enough. -/
theorem recv_of_open {ch : UDPChannel} (dst : GoSlice) {d : Bytes} {ctr : ℕ} {plain : Bytes}
    (hopen : ch.openDatagram U d = some (ctr, plain)) {w : Replay}
    (hfresh : ch.replay.check ctr = some (true, w)) :
    ∃ dst', dst'.len = dst.len ∧
      ch.recv U dst d = some
        (if unframe ch.settings.useBucketPadding plain = [] then none
          else some (unframe ch.settings.useBucketPadding plain).length,
        dst', { ch with replay := w }) ∧
      ((unframe ch.settings.useBucketPadding plain).length ≤ dst.len →
        dst'.bytes.take (unframe ch.settings.useBucketPadding plain).length =
          unframe ch.settings.useBucketPadding plain) := by
  simp only [UDPChannel.recv, hopen, hfresh, Option.map_some, not_true_eq_false, if_false]
  by_cases hframed : ch.settings.useBucketPadding = true ∧ plain.length ≥ 2 ∧
      getBE (plain.take 2) > 0 ∧ getBE (plain.take 2) ≤ plain.length - 2
  · have hout : unframe ch.settings.useBucketPadding plain = slice plain 2 (getBE (plain.take 2)) := by
      rw [unframe, if_pos ⟨hframed.1, hframed.2.1⟩, if_pos hframed.2.2]
    have hlen : (slice plain 2 (getBE (plain.take 2))).length = getBE (plain.take 2) :=
      length_slice (by omega)
    have hne : slice plain 2 (getBE (plain.take 2)) ≠ [] := by
      rw [ne_eq, ← List.length_eq_zero_iff, hlen]
      omega
    rw [if_pos hframed, hout, if_neg hne, hlen]
    refine ⟨_, ?_, rfl, fun hle => ?_⟩
    · exact GoSlice.len_appendEmpty dst plain
    · have hroom : (slice plain 2 (getBE (plain.take 2))).length ≤ (dst.appendEmpty plain).len := by
        rw [hlen, GoSlice.len_appendEmpty]
        exact hle
      have := GoSlice.take_copy _ hroom
      rwa [hlen] at this
  · have hout : unframe ch.settings.useBucketPadding plain = plain := by
      unfold unframe
      split
      · rename_i h
        rw [if_neg fun h' => hframed ⟨h.1, h.2, h'⟩]
      · rfl
    rw [if_neg hframed, hout]
    refine ⟨dst.appendEmpty plain, GoSlice.len_appendEmpty dst plain, ?_, GoSlice.take_appendEmpty⟩
    by_cases hempty : plain = []
    · simp [hempty]
    · simp [hempty]

/-- A report of `Recv` comes from a datagram that opens. -/
theorem open_of_recv {ch : UDPChannel} {dst dst' : GoSlice} {d : Bytes} {n : ℕ} {ch' : UDPChannel}
    (h : ch.recv U dst d = some (some n, dst', ch')) :
    ∃ ctr plain w, ch.openDatagram U d = some (ctr, plain) ∧
      ch.replay.check ctr = some (true, w) := by
  unfold UDPChannel.recv at h
  cases hopen : ch.openDatagram U d with
  | none => simp [hopen] at h
  | some r =>
    obtain ⟨ctr, plain⟩ := r
    simp only [hopen] at h
    obtain ⟨⟨fresh, w⟩, hcheck, hres⟩ := Option.map_eq_some_iff.mp h
    cases fresh with
    | true => exact ⟨ctr, plain, w, rfl, hcheck⟩
    | false => simp at hres

/-! ## Two ends that understand each other -/

/-- The session `i` of the server can read the next datagram of the client. -/
structure Facing (ch : UDPChannel) (srv : UDPServer) (i : ℕ) : Prop where
  stun : ch.settings.enableSTUN = true
  counter : ch.sendCtr < 2 ^ 64
  select : srv.mux.select ch.tag = some (i, false)
  session : ∃ s, srv.mux.sessions[i]? = some s ∧ s.decAEAD = ch.encAEAD ∧ s.hp = ch.hp
  fresh : ∃ w, (srv.states i).replay.check ch.sendCtr = some (true, w)
  padding : (srv.states i).settings.useBucketPadding = ch.settings.useBucketPadding

/-- A new window accepts the first counter. -/
theorem check_zero : ∃ w, (ReplayWindow.Window.zero : Replay).check 0 = some (true, w) :=
  (ReplayWindow.tracks_zero.check_iff (by norm_num : 0 + 1 < 2 ^ 64)).mpr ⟨by simp, .inr (by decide)⟩

/-- A new channel and a new session with the same keys understand each other. -/
theorem facing_new (keys : UDPKeys) (srv : UDPServer) {cfg : UDPSettings}
    (hstun : cfg.enableSTUN = true) :
    Facing { newUDPChannel keys with settings := cfg } (srv.registerSession keys.swap cfg)
      srv.mux.sessions.length where
  stun := hstun
  counter := Nat.two_pow_pos 64
  select := by
    simp [UDPMux.select, UDPMux.mruSelect, UDPServer.registerSession, UDPMux.registerSession,
      newUDPSession, UDPKeys.swap, newUDPChannel]
  session := ⟨newUDPSession keys.swap, List.getElem?_concat_length, rfl, rfl⟩
  fresh := by
    simp only [UDPServer.registerSession, Function.update_self]
    exact check_zero
  padding := by simp [UDPServer.registerSession]

/-- The client can read the next datagram of a session, which knows where the client is. -/
structure FacingBack (s : UDPSession) (st : SessionState) (ch : UDPChannel) : Prop where
  stun : st.settings.enableSTUN = true
  counter : st.sendCtr < 2 ^ 64
  opened : s.closed = false
  addr : st.clientAddr.isSome = true
  tag : s.tag = ch.tag
  key : ch.decAEAD = s.encAEAD
  hp : ch.hp = s.hp
  fresh : ∃ w, ch.replay.check st.sendCtr = some (true, w)
  padding : ch.settings.useBucketPadding = st.settings.useBucketPadding

theorem Facing.openDatagram (hU : U.AEADLawful) {ch : UDPChannel} {srv : UDPServer} {i : ℕ}
    (h : Facing ch srv i) (msgLen txID : ℕ) (plain : Bytes) :
    ∃ s, srv.mux.openDatagram U (writeSTUNHeader msgLen 0x0001 txID ++
        sealPacket U ch.encAEAD ch.hp ch.tag ch.sendCtr plain) = some (i, s, ch.sendCtr, plain) := by
  obtain ⟨s, hs, hkey, hhp⟩ := h.session
  have hopen := openPacket_sealPacket hU ch.encAEAD ch.hp ch.tag h.counter plain
  have htype : (putBE 2 0x0001).getD 0 0 &&& 0xC0 = 0 := by decide
  have hdata := packetData_stun hU htype msgLen txID ch.encAEAD ch.hp ch.tag ch.sendCtr plain
  refine ⟨s, ?_⟩
  simp [UDPMux.openDatagram, UDPMux.pick, hdata, h.select, hs, UDPSession.recvKeys, hkey, hhp, hopen]

theorem FacingBack.openDatagram (hU : U.AEADLawful) {s : UDPSession} {st : SessionState}
    {ch : UDPChannel} (h : FacingBack s st ch) (msgLen txID : ℕ) (plain : Bytes) :
    ch.openDatagram U (writeSTUNHeader msgLen 0x0101 txID ++
        sealPacket U s.encAEAD s.hp s.tag st.sendCtr plain) = some (st.sendCtr, plain) := by
  have hopen := openPacket_sealPacket hU s.encAEAD s.hp s.tag h.counter plain
  have hkeys : ch.recvKeys s.tag = some (s.encAEAD, s.hp) := by
    rw [UDPChannel.recvKeys, if_pos h.tag, h.key, h.hp]
  have htype : (putBE 2 0x0101).getD 0 0 &&& 0xC0 = 0 := by decide
  have hdata := packetData_stun hU htype msgLen txID s.encAEAD s.hp s.tag st.sendCtr plain
  simp [UDPChannel.openDatagram, hdata, hkeys, hopen]

/-- The scratch buffer of `UDPChannel.Send` has room for the padded plaintext. -/
def Fits (cfg : UDPSettings) (payload : Bytes) (draw bufCap : ℕ) : Prop :=
  cfg.useBucketPadding = true → totalPlain cfg payload.length draw ≤ udpPlainBufCap →
    totalPlain cfg payload.length draw + 48 ≤ bufCap

instance (cfg : UDPSettings) (payload : Bytes) (draw bufCap : ℕ) :
    Decidable (Fits cfg payload draw bufCap) := by
  unfold Fits; infer_instance

theorem length_framePlain {cfg : UDPSettings} {payload plain : Bytes} {r : SendDraws}
    (hne : payload ≠ []) (h : framePlain cfg payload r = .ok plain) :
    plain.length = if cfg.useBucketPadding = true ∧
        totalPlain cfg payload.length r.trailer ≤ udpPlainBufCap
      then (totalPlain cfg payload.length r.trailer).toNat else payload.length := by
  have hpos := List.length_pos_iff.mpr hne
  unfold framePlain at h
  by_cases hpad : cfg.useBucketPadding = true
  · simp only [hpad, gt_iff_lt, hpos, and_self, if_true, true_and] at h ⊢
    split at h
    · rename_i hcap
      split at h
      · simp at h
      · rename_i hfits
        obtain rfl := Except.ok.inj h
        rw [if_pos hcap]
        simp only [List.length_append, length_putBE, length_fill]
        omega
    · rename_i hcap
      obtain rfl := Except.ok.inj h
      rw [if_neg hcap]
  · simp only [hpad, false_and, if_false, Bool.false_eq_true] at h ⊢
    rw [← Except.ok.inj h]

/-- A plaintext is short enough for the length field of the STUN header. -/
theorem length_framePlain_lt {cfg : UDPSettings} {payload plain : Bytes} {r : SendDraws}
    (hlen : payload.length ≤ 65507) (h : framePlain cfg payload r = .ok plain) :
    plain.length + 28 < 2 ^ 16 := by
  by_cases hne : payload = []
  · subst hne
    simp only [framePlain, List.length_nil, gt_iff_lt, lt_irrefl, and_false, if_false] at h
    simp [← Except.ok.inj h]
  · have := length_framePlain hne h
    split at this
    · rename_i hcap
      rw [udpPlainBufCap] at hcap
      omega
    · omega

theorem le_getUDPSendBuf (poolCap size : ℕ) : size ≤ getUDPSendBuf poolCap size := by
  unfold getUDPSendBuf
  split <;> omega

/-- The scratch buffer has room exactly for plaintexts that fit. -/
theorem fits_iff {cfg : UDPSettings} {payload plain : Bytes} {r : SendDraws} {poolCap : ℕ}
    (hne : payload ≠ []) (h : framePlain cfg payload r = .ok plain) :
    plain.length + 48 ≤ getUDPSendBuf poolCap (requiredBuf payload) ↔
      Fits cfg payload r.trailer (getUDPSendBuf poolCap (requiredBuf payload)) := by
  have hlen := length_framePlain hne h
  have hroom := le_getUDPSendBuf poolCap (requiredBuf payload)
  simp only [requiredBuf, stunHeaderSize, udpHeaderSize, udpTagSize, udpCounterSize, tagSize]
    at hroom ⊢
  unfold Fits
  split at hlen
  · rename_i hcap
    simp only [hcap.1, hcap.2, true_implies]
    omega
  · rename_i hcap
    refine iff_of_true (by omega) fun hpad htotal => absurd ⟨hpad, htotal⟩ hcap

/-! ## The round trips -/

/-- What the server makes of the client's next datagram. -/
theorem client_offer_iff (hU : U.AEADLawful) {ch : UDPChannel} {srv : UDPServer} {i : ℕ}
    (h : Facing ch srv i) {payload : Bytes} (hlen : payload.length ≤ 65507) (poolCap : ℕ)
    (r : SendDraws) (conn : ℕ) (addr : UDPAddr) (echoCap : ℕ) (echo : SendDraws) {out : Bytes}
    (hout : out ≠ []) :
    (∃ d srv', (ch.send U payload poolCap r).1 = .ok d ∧
      srv.receive U ⟨conn, addr, d, echoCap, echo⟩ = some (.offered i out, srv')) ↔
    (∃ plain, framePlain ch.settings payload r = .ok plain ∧
      unframe ch.settings.useBucketPadding plain = out) ∧
      ∀ plain, framePlain ch.settings payload r = .ok plain →
        plain.length + 48 ≤ getUDPSendBuf poolCap (requiredBuf payload) := by
  obtain ⟨w, hw⟩ := h.fresh
  have hreceive : ∀ plain, ((∃ srv', srv.receive U ⟨conn, addr, writeSTUNHeader (plain.length + 28)
        0x0001 r.txID ++ sealPacket U ch.encAEAD ch.hp ch.tag ch.sendCtr plain, echoCap, echo⟩ =
          some (.offered i out, srv')) ↔
      unframe ch.settings.useBucketPadding plain = out) := fun plain => by
    obtain ⟨s, hopen⟩ := h.openDatagram hU (plain.length + 28) r.txID plain
    rw [← h.padding]
    exact receive_of_open (a := ⟨conn, addr, _, echoCap, echo⟩) hopen hw hout
  constructor
  · rintro ⟨d, srv', hd, hoffer⟩
    obtain ⟨plain, hplain, hbuild⟩ := UDPChannel.send_eq_ok_iff.mp hd
    rw [buildDatagram_stun hU h.stun (length_framePlain_lt (by omega) hplain)] at hbuild
    split at hbuild
    · simp at hbuild
    · rename_i hcap
      obtain rfl := Except.ok.inj hbuild
      refine ⟨⟨plain, hplain, (hreceive plain).mp ⟨srv', hoffer⟩⟩, fun plain' hplain' => ?_⟩
      rw [hplain] at hplain'
      obtain rfl := Except.ok.inj hplain'
      omega
  · rintro ⟨⟨plain, hplain, hun⟩, hroom⟩
    obtain ⟨srv', hoffer⟩ := (hreceive plain).mpr hun
    refine ⟨_, srv', UDPChannel.send_eq_ok_iff.mpr ⟨plain, hplain, ?_⟩, hoffer⟩
    have hcap := hroom plain hplain
    rw [buildDatagram_stun hU h.stun (length_framePlain_lt (by omega) hplain), if_neg (by omega)]

/-- Without room in the scratch buffer `Send` panics. -/
theorem send_panics (hU : U.AEADLawful) {ch : UDPChannel} (hstun : ch.settings.enableSTUN = true)
    {payload plain : Bytes} (hlen : payload.length ≤ 65507) {poolCap : ℕ} {r : SendDraws}
    (hplain : framePlain ch.settings payload r = .ok plain)
    (hroom : getUDPSendBuf poolCap (requiredBuf payload) < plain.length + 48) :
    (ch.send U payload poolCap r).1 = .error "runtime error: slice bounds out of range" := by
  have hbuild : ∀ bufCap, bufCap < plain.length + 48 →
      buildDatagram U ch.settings 0x0001 ch.encAEAD ch.hp ch.tag ch.sendCtr plain bufCap r =
        .error "runtime error: slice bounds out of range" := fun bufCap hcap => by
    rw [buildDatagram_stun hU hstun (length_framePlain_lt (by omega) hplain), if_pos hcap]
  simp only [UDPChannel.send, UDPChannel.sendWithBuffer, hplain, bind, Except.bind, hbuild _ hroom]

theorem client_roundTrip_iff (hU : U.AEADLawful) {ch : UDPChannel} {srv : UDPServer} {i : ℕ}
    (h : Facing ch srv i) {payload : Bytes} (hne : payload ≠ [])
    (hlen : payload.length ≤ 65507 - 48) (poolCap : ℕ) (r : SendDraws) (conn : ℕ) (addr : UDPAddr)
    (echoCap : ℕ) (echo : SendDraws) :
    (∃ d srv', (ch.send U payload poolCap r).1 = .ok d ∧
      srv.receive U ⟨conn, addr, d, echoCap, echo⟩ = some (.offered i payload, srv')) ↔
    Framable ch.settings payload r.trailer ∧
      Fits ch.settings payload r.trailer (getUDPSendBuf poolCap (requiredBuf payload)) := by
  rw [client_offer_iff hU h (by omega) poolCap r conn addr echoCap echo hne,
    unframe_framePlain_iff ch.settings hne (by omega) r]
  refine and_congr_right fun hframable => ?_
  obtain ⟨plain, hplain, -⟩ := (unframe_framePlain_iff ch.settings hne (by omega) r).mpr hframable
  rw [← fits_iff hne hplain]
  constructor
  · exact fun hroom => hroom plain hplain
  · intro hroom plain' hplain'
    rw [hplain] at hplain'
    exact Except.ok.inj hplain' ▸ hroom

theorem server_roundTrip_iff (hU : U.AEADLawful) {s : UDPSession} {st : SessionState}
    {ch : UDPChannel} (h : FacingBack s st ch) {payload : Bytes} (hne : payload ≠ [])
    (hlen : payload.length ≤ 65507 - 48) (muxConn poolCap : ℕ) (r : SendDraws) {dst : GoSlice}
    (hdst : payload.length ≤ dst.len) :
    (∃ sent dst' ch', (st.send U s muxConn payload poolCap r).1 = .ok sent ∧
      ch.recv U dst sent.data = some (some payload.length, dst', ch') ∧
      dst'.bytes.take payload.length = payload) ↔
    Framable st.settings payload r.trailer := by
  obtain ⟨w, hw⟩ := h.fresh
  have hopen := fun msgLen => h.openDatagram hU msgLen r.txID
  rw [← unframe_framePlain_iff st.settings hne (by omega) r, ← h.padding]
  constructor
  · rintro ⟨sent, dst', ch', hsent, hrecv, hstored⟩
    obtain ⟨-, -, -, plain, hplain, hbuild⟩ := SessionState.send_eq_ok_iff.mp hsent
    rw [buildDatagram_stun hU h.stun (length_framePlain_lt (by omega) hplain)] at hbuild
    split at hbuild
    · simp at hbuild
    · obtain ⟨dst'', hlen'', hrecv', hstored'⟩ := recv_of_open dst
        (hopen (plain.length + 28) plain) hw
      rw [← Except.ok.inj hbuild, hrecv'] at hrecv
      -- the report is the length of what was unframed, and so is what was stored
      simp only [Option.some.injEq, Prod.mk.injEq] at hrecv
      obtain ⟨hn, rfl, -⟩ := hrecv
      split at hn
      · simp at hn
      · have hout := Option.some.inj hn
        rw [hout, hstored] at hstored'
        exact ⟨plain, hplain, (hstored' hdst).symm⟩
  · rintro ⟨plain, hplain, hun⟩
    obtain ⟨addr, haddr⟩ := Option.isSome_iff_exists.mp h.addr
    obtain ⟨dst', -, hrecv, hstored⟩ := recv_of_open dst (hopen (plain.length + 28) plain) hw
    rw [hun] at hrecv hstored
    rw [if_neg hne] at hrecv
    refine ⟨⟨st.activeConn.getD muxConn, addr, _⟩, dst', _,
      SessionState.send_eq_ok_iff.mpr ⟨h.opened, haddr, rfl, plain, hplain, ?_⟩, hrecv, hstored hdst⟩
    have hroom := le_getUDPSendBuf poolCap
      (st.settings.placedOffset + udpHeaderSize + plain.length + tagSize + 64)
    rw [buildDatagram_stun hU h.stun (length_framePlain_lt (by omega) hplain), if_neg]
    simp only [UDPSettings.placedOffset, h.stun, if_true, stunHeaderSize, udpHeaderSize, udpTagSize,
      udpCounterSize, tagSize] at hroom ⊢
    omega

/-- `Recv` has stored what it reports exactly when the destination is long enough. -/
theorem recv_stored_iff {ch : UDPChannel} {dst dst' : GoSlice} {d : Bytes} {n : ℕ} {ch' : UDPChannel}
    (h : ch.recv U dst d = some (some n, dst', ch')) :
    ∃ ctr plain, ch.openDatagram U d = some (ctr, plain) ∧
      n = (unframe ch.settings.useBucketPadding plain).length ∧
      (dst'.bytes.take n = unframe ch.settings.useBucketPadding plain ↔ n ≤ dst.len) := by
  obtain ⟨ctr, plain, w, hopen, hfresh⟩ := open_of_recv h
  obtain ⟨dst'', hlen, hrecv, hstored⟩ := recv_of_open dst hopen hfresh
  rw [hrecv] at h
  simp only [Option.some.injEq, Prod.mk.injEq] at h
  obtain ⟨hn, rfl, -⟩ := h
  split at hn
  · simp at hn
  · obtain rfl := Option.some.inj hn
    refine ⟨ctr, plain, hopen, rfl, fun hall => ?_, hstored⟩
    by_contra hgt
    exact GoSlice.take_bytes_ne (by omega) hall

/-- **The round trip.** A payload of the client reaches the queue of its session exactly when it is
framable and fits the scratch buffer; a payload of a session is read by the client into a long enough
destination exactly when it is framable; and `Recv` has stored what it reports exactly when the
payload is not longer than the destination. -/
theorem datagram_roundTrip_iff (hU : U.AEADLawful) :
    (∀ (ch : UDPChannel) (srv : UDPServer) (i : ℕ), Facing ch srv i →
      ∀ payload : Bytes, payload ≠ [] → payload.length ≤ 65507 - 48 →
      ∀ (poolCap : ℕ) (r : SendDraws) (conn : ℕ) (addr : UDPAddr) (echoCap : ℕ) (echo : SendDraws),
        (∃ d srv', (ch.send U payload poolCap r).1 = .ok d ∧
          srv.receive U ⟨conn, addr, d, echoCap, echo⟩ = some (.offered i payload, srv')) ↔
        Framable ch.settings payload r.trailer ∧
          Fits ch.settings payload r.trailer (getUDPSendBuf poolCap (requiredBuf payload))) ∧
    (∀ (s : UDPSession) (st : SessionState) (ch : UDPChannel), FacingBack s st ch →
      ∀ payload : Bytes, payload ≠ [] → payload.length ≤ 65507 - 48 →
      ∀ (muxConn poolCap : ℕ) (r : SendDraws) (dst : GoSlice), payload.length ≤ dst.len →
        ((∃ sent dst' ch', (st.send U s muxConn payload poolCap r).1 = .ok sent ∧
          ch.recv U dst sent.data = some (some payload.length, dst', ch') ∧
          dst'.bytes.take payload.length = payload) ↔
        Framable st.settings payload r.trailer)) ∧
    (∀ (ch : UDPChannel) (dst dst' : GoSlice) (d : Bytes) (n : ℕ) (ch' : UDPChannel),
      ch.recv U dst d = some (some n, dst', ch') →
      ∃ ctr plain, ch.openDatagram U d = some (ctr, plain) ∧
        n = (unframe ch.settings.useBucketPadding plain).length ∧
        (dst'.bytes.take n = unframe ch.settings.useBucketPadding plain ↔ n ≤ dst.len)) :=
  ⟨fun _ _ _ h _ hne hlen poolCap r conn addr echoCap echo =>
      client_roundTrip_iff hU h hne hlen poolCap r conn addr echoCap echo,
    fun _ _ _ h _ hne hlen muxConn poolCap r _ hdst =>
      server_roundTrip_iff hU h hne hlen muxConn poolCap r hdst,
    fun _ _ _ _ _ _ h => recv_stored_iff h⟩

section Samples

def sampleAddr : UDPAddr := ⟨[10, 0, 0, 2], 4500⟩

def sampleServer : UDPServer := ⟨newUDPMux, 0, fun _ => newSessionState 0⟩

/-- The default settings with bucket padding. -/
def paddedSettings : UDPSettings := { defaultUDPSettings with useBucketPadding := true }

/-- A payload too long for the padding buffer, whose first bytes read as the length 1. -/
def misleadingPayload : Bytes := 0 :: 1 :: List.replicate 2045 7

def sampleSession : UDPSession := newUDPSession (sampleKeys .zero).swap

/-- A session that has heard from its client. -/
def sampleState : SessionState := { newSessionState 0 with clientAddr := some sampleAddr }

def sampleChannel : UDPChannel := newUDPChannel (sampleKeys .zero)

theorem facingBack_sample : FacingBack sampleSession sampleState sampleChannel where
  stun := rfl
  counter := Nat.two_pow_pos 64
  opened := rfl
  addr := rfl
  tag := rfl
  key := rfl
  hp := rfl
  fresh := check_zero
  padding := rfl

/-- A slice of the given length, with no more capacity. -/
def sampleSlice (n : ℕ) : GoSlice := ⟨List.replicate n 0, n, by simp⟩

/-- With the default settings three bytes arrive in either direction. -/
theorem datagram_arrives :
    (∃ d srv', (UDPChannel.send .sample { newUDPChannel (sampleKeys .zero) with
          settings := defaultUDPSettings } [1, 2, 3] 2048 sampleDraws).1 = .ok d ∧
        (sampleServer.registerSession (sampleKeys .zero).swap defaultUDPSettings).receive .sample
          ⟨0, sampleAddr, d, 2048, sampleDraws⟩ = some (.offered 0 [1, 2, 3], srv')) ∧
    ∃ sent dst' ch',
      (sampleState.send .sample sampleSession 0 [1, 2, 3] 2048 sampleDraws).1 = .ok sent ∧
      sampleChannel.recv .sample (sampleSlice 3) sent.data = some (some 3, dst', ch') ∧
      dst'.bytes.take 3 = [1, 2, 3] ∧
      ∃ ctr plain, sampleChannel.openDatagram .sample sent.data = some (ctr, plain) := by
  obtain ⟨hclient, hserver, hstored⟩ := datagram_roundTrip_iff UDPCiphers.sample_lawful
  refine ⟨(hclient _ _ _ (facing_new (sampleKeys .zero) sampleServer rfl) [1, 2, 3] (by simp)
    (by decide) 2048 sampleDraws 0 sampleAddr 2048 sampleDraws).mpr (by decide), ?_⟩
  obtain ⟨sent, dst', ch', hsent, hrecv, htake⟩ := (hserver _ _ _ facingBack_sample [1, 2, 3]
    (by simp) (by decide) 0 2048 sampleDraws (sampleSlice 3) (by decide)).mpr (by decide)
  obtain ⟨ctr, plain, hopen, -⟩ := hstored _ _ _ _ _ _ hrecv
  exact ⟨sent, dst', ch', hsent, hrecv, htake, ctr, plain, hopen⟩

/-- Two payloads that do not arrive, and a report of `Recv` that is too long. With bucket padding a
payload of 2047 bytes is sent bare and read as a framed one; with a bucket of 2048 bytes `Send`
panics; and two bytes read into a destination of one are reported as two. -/
theorem datagram_misread :
    (∃ d srv', (UDPChannel.send .sample { newUDPChannel (sampleKeys .zero) with
          settings := paddedSettings } misleadingPayload 2048 sampleDraws).1 = .ok d ∧
        (sampleServer.registerSession (sampleKeys .zero).swap paddedSettings).receive .sample
          ⟨0, sampleAddr, d, 2048, sampleDraws⟩ = some (.offered 0 [7], srv')) ∧
    (UDPChannel.send .sample { newUDPChannel (sampleKeys .zero) with
        settings := { paddedSettings with bucketMTU := 2048 } } (List.replicate 1100 7) 2048
        sampleDraws).1 = .error "runtime error: slice bounds out of range" ∧
    ∃ sent dst' ch', (sampleState.send .sample sampleSession 0 [7, 7] 2048 sampleDraws).1 = .ok sent ∧
      sampleChannel.recv .sample (sampleSlice 1) sent.data = some (some 2, dst', ch') ∧
      dst'.bytes.take 2 ≠ [7, 7] := by
  have hlen : misleadingPayload.length = 2047 := by
    rw [misleadingPayload, List.length_cons, List.length_cons, List.length_replicate]
  refine ⟨?_, ?_, ?_⟩
  · have hplain : framePlain paddedSettings misleadingPayload sampleDraws = .ok misleadingPayload := by
      have htotal : ¬totalPlain paddedSettings 2047 sampleDraws.trailer ≤ udpPlainBufCap := by decide
      simp only [framePlain, hlen, htotal, if_false, ite_self]
    have hun : unframe true misleadingPayload = [7] := by
      have htake : getBE (misleadingPayload.take 2) = 1 := by decide
      simp only [unframe, hlen, htake]
      rfl
    have hroom : misleadingPayload.length + 48 ≤
        getUDPSendBuf 2048 (requiredBuf misleadingPayload) := by
      rw [requiredBuf, hlen]
      decide
    exact (client_offer_iff UDPCiphers.sample_lawful (facing_new (sampleKeys .zero) sampleServer rfl)
      (by omega) 2048 sampleDraws 0 sampleAddr 2048 sampleDraws (by simp)).mpr
      ⟨⟨misleadingPayload, hplain, hun⟩, fun plain h => Except.ok.inj (hplain.symm.trans h) ▸ hroom⟩
  · have htotal : totalPlain { paddedSettings with bucketMTU := 2048 } 1100 sampleDraws.trailer =
        2048 := by decide
    have hplain : framePlain { paddedSettings with bucketMTU := 2048 } (List.replicate 1100 7)
        sampleDraws = .ok (putBE 2 1100 ++ List.replicate 1100 7 ++ fill 946 sampleDraws.pad) := by
      simp only [framePlain, List.length_replicate, htotal]
      rfl
    refine send_panics UDPCiphers.sample_lawful rfl (by rw [List.length_replicate]; omega) hplain ?_
    rw [requiredBuf, List.length_append, List.length_append, List.length_replicate, length_fill,
      length_putBE]
    decide
  · obtain ⟨w, hw⟩ := facingBack_sample.fresh
    have hopen := facingBack_sample.openDatagram UDPCiphers.sample_lawful 30 0 [7, 7]
    obtain ⟨dst', hdst, hrecv, -⟩ := recv_of_open (sampleSlice 1) hopen hw
    refine ⟨⟨0, sampleAddr, _⟩, dst', _, rfl, hrecv, ?_⟩
    have hshort : dst'.len < ([7, 7] : Bytes).length := by
      rw [hdst]
      decide
    exact GoSlice.take_bytes_ne hshort

end Samples

end ObsidianVPN.Udp
