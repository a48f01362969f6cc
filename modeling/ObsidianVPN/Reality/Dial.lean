import ObsidianVPN.Handshake.HelloFrame
import ObsidianVPN.Reality.Demux

/-!
# The client side of REALITY

After its ClientHello the client reads one TLS record, and then scans for the hello frame of the
server. What the server sends before that frame comes from the fallback target, as far as it can be
reached.

* `readServerHello`: the end of `DialObsidianREALITY`; `clientReads`: with `ReadHelloFrame` behind it;
* `OneRecord`: one whole record of a type the client takes, and not too much behind it;
* `clientReads_iff`: the client gets the payload of the frame exactly behind such bytes;
* **`authentic_client_reads_iff`**: an authentic client gets it exactly when the answer of the
  fallback target, if there is one, is of this form. It is passed on as it is.
-/

namespace ObsidianVPN.Reality

open ByteStr GoString Handshake WindowScan

/-- `DialObsidianREALITY` from the answer to its ClientHello on: what is left to read. -/
def readServerHello (stream : Bytes) : Except String Bytes :=
  match readFull 5 stream with
  | (.error err, _) => .error ("read reality server hello record header: " ++ err)
  | (.ok respHeader, rest) =>
    let contentType := respHeader.getD 0 0
    if contentType ≠ 0x16 ∧ contentType ≠ 0x14 then
      .error ("unexpected TLS record content type: 0x" ++ formatHex 2 contentType.toNat)
    else
      let recordLen := recordLength respHeader
      if recordLen > 16384 then .error s!"server hello record too large: {recordLen}"
      else
        match readFull recordLen rest with
        | (.error err, _) => .error ("read reality server hello body: " ++ err)
        | (.ok _, rest) => .ok rest

/-- The client up to the payload of the server's hello frame. -/
def clientReads (P : Primitives) (serverPub stream : Bytes) : Except String Bytes :=
  match readServerHello stream with
  | .error err => .error err
  | .ok rest => (readHelloFrame P serverPub 4096 8192 rest).1

/-! ## One record -/

/-- The bytes begin with a record that the client accepts. -/
def TakesRecord (stream : Bytes) : Prop :=
  5 ≤ stream.length ∧ (stream.getD 0 0 = 0x16 ∨ stream.getD 0 0 = 0x14) ∧
    recordLength stream ≤ 16384 ∧ 5 + recordLength stream ≤ stream.length

/-- One record that the client accepts, and at most 4068 bytes behind it. -/
def OneRecord (hello : Bytes) : Prop :=
  TakesRecord hello ∧ hello.length - (5 + recordLength hello) ≤ 4068

instance : DecidablePred OneRecord := fun _ => by
  unfold OneRecord TakesRecord; infer_instance

theorem getD_take {stream : Bytes} {n i : ℕ} (h : i < n) :
    (stream.take n).getD i 0 = stream.getD i 0 := by
  rw [List.getD_eq_getElem?_getD, List.getElem?_take_of_lt h, List.getD_eq_getElem?_getD]

/-- **What the client reads first.** -/
theorem readServerHello_ok {stream rest : Bytes} :
    readServerHello stream = .ok rest ↔
      TakesRecord stream ∧ rest = stream.drop (5 + recordLength stream) := by
  unfold readServerHello TakesRecord
  by_cases hlen : 5 ≤ stream.length
  · have htype : (stream.take 5).getD 0 0 = stream.getD 0 0 := getD_take (by decide)
    have hrecord : recordLength (stream.take 5) = recordLength stream := by
      have := recordLength_append (stream.drop 5) (show 5 ≤ (stream.take 5).length by simpa using hlen)
      rw [← this, List.take_append_drop]
    simp only [readFull_of_le hlen, htype, hrecord, hlen, true_and]
    split
    · rename_i hbad
      exact iff_of_false (by simp) (by tauto)
    · rename_i hgood
      have htypes : stream.getD 0 0 = 0x16 ∨ stream.getD 0 0 = 0x14 := by tauto
      split
      · rename_i hlong
        exact iff_of_false (by simp) fun h => absurd h.1.2.1 (not_le.mpr hlong)
      · rename_i hshort
        simp only [htypes, not_lt.mp hshort, true_and]
        by_cases hbody : recordLength stream ≤ (stream.drop 5).length
        · have hwhole : 5 + recordLength stream ≤ stream.length := by
            rw [List.length_drop] at hbody
            omega
          simp only [readFull_of_le hbody, hwhole, true_and, Except.ok.injEq, List.drop_drop]
          exact eq_comm
        · have hcut : ¬5 + recordLength stream ≤ stream.length := by
            rw [List.length_drop] at hbody
            omega
          simp only [readFull, if_neg hbody]
          exact iff_of_false (by simp) fun h => hcut h.1
  · simp only [readFull, if_neg hlen]
    exact iff_of_false (by simp) fun h => hlen h.1.1

/-! ## The frame behind it -/

/-- The only window of the stream that carries a tag is the one at `pos`. -/
def OnlyTagAt (P : Primitives) (serverPub stream : Bytes) (pos : ℕ) : Prop :=
  ∀ i < stream.length, i + helloFrameOverhead ≤ stream.length → i ≠ pos →
    ¬Tagged P serverPub (windowAt stream helloFrameOverhead i)

instance (P : Primitives) (serverPub stream : Bytes) (pos : ℕ) :
    Decidable (OnlyTagAt P serverPub stream pos) := by
  unfold OnlyTagAt; infer_instance

section Frame

variable {P : Primitives} {serverPub payload nonce frame : Bytes}

theorem windowAt_drop (stream : Bytes) (n i : ℕ) :
    windowAt (stream.drop n) helloFrameOverhead i = windowAt stream helloFrameOverhead (n + i) := by
  rw [windowAt, List.drop_drop, windowAt]

/-- The first bytes decide which record is taken, if they hold it. -/
theorem takesRecord_append {hello : Bytes} (rest : Bytes) (hfive : 5 ≤ hello.length)
    (hwhole : 5 + recordLength hello ≤ hello.length) :
    TakesRecord (hello ++ rest) ↔ TakesRecord hello := by
  have hle : hello.length ≤ (hello ++ rest).length := (List.prefix_append _ _).length_le
  have htype : (hello ++ rest).getD 0 0 = hello.getD 0 0 := List.getD_append _ _ _ _ (by omega)
  rw [TakesRecord, TakesRecord, recordLength_append rest hfive, htype]
  simp only [hfive, hfive.trans hle, hwhole, hwhole.trans hle]

/-- **The client gets the payload exactly behind one record.** -/
theorem clientReads_iff (hP : P.Lawful)
    (hframe : buildHelloFrame P serverPub payload nonce = .ok frame)
    (hn : nonce.length = helloNonceSize) {hello later : Bytes}
    (htags : OnlyTagAt P serverPub (hello ++ frame ++ later) hello.length) :
    clientReads P serverPub (hello ++ frame ++ later) = .ok payload ↔ OneRecord hello := by
  obtain ⟨h8192, hbytes⟩ := buildHelloFrame_ok.mp hframe
  have hover : helloFrameOverhead = 28 := rfl
  have hlenFrame : helloFrameOverhead ≤ frame.length := by
    have := (helloHead_spec serverPub hP hn (by omega : payload.length < 2 ^ 32)).1
    rw [hbytes, List.length_append, this]
    omega
  have hstream : hello ++ frame ++ later = hello ++ (frame ++ later) := List.append_assoc _ _ _
  by_cases hrecord : TakesRecord hello
  · obtain ⟨hfive, -, -, hwhole⟩ := id hrecord
    have hread : readServerHello (hello ++ frame ++ later) =
        .ok (hello.drop (5 + recordLength hello) ++ frame ++ later) := by
      refine readServerHello_ok.mpr ⟨?_, ?_⟩
      · rw [hstream]
        exact (takesRecord_append _ hfive hwhole).mpr hrecord
      · rw [hstream, recordLength_append _ hfive, List.drop_append_of_le_length hwhole,
          List.append_assoc]
    set before := hello.drop (5 + recordLength hello) with hbefore
    have hlen : before.length = hello.length - (5 + recordLength hello) := List.length_drop
    have hclean : Unambiguous P serverPub before frame := by
      intro i hi htagged
      -- the window is one of the whole stream, before the frame
      have hwindow : windowAt (before ++ frame) helloFrameOverhead i =
          windowAt (hello ++ frame ++ later) helloFrameOverhead (5 + recordLength hello + i) := by
        rw [← windowAt_drop, hstream, List.drop_append_of_le_length hwhole, ← List.append_assoc]
        exact (windowAt_append (by rw [List.length_append]; omega) later).symm
      rw [hwindow] at htagged
      refine htags (5 + recordLength hello + i) ?_ ?_ (by omega) htagged
      · simp only [List.length_append]
        omega
      · simp only [List.length_append]
        omega
    rw [clientReads, hread, OneRecord, and_iff_right hrecord, ← hlen]
    by_cases hnear : before.length ≤ 4068
    · refine iff_of_true ?_ hnear
      dsimp only
      rw [readHelloFrame_reached hP hframe hn hclean (by omega) (by omega)]
    · refine iff_of_false ?_ hnear
      dsimp only
      rw [readHelloFrame_missed hP hframe hn hclean (by omega) (by omega)]
      simp
  · refine iff_of_false (fun hok => hrecord ?_) fun h => hrecord h.1
    unfold clientReads at hok
    split at hok
    · cases hok
    · rename_i rest hread
      obtain ⟨htakes, rfl⟩ := readServerHello_ok.mp hread
      obtain ⟨i, hi, htagged⟩ := tagged_of_readHelloFrame hok
      rw [windowAt_drop] at htagged
      rw [List.length_drop] at hi
      -- the only tag is that of the frame, so the record ends before it
      have hpos : 5 + recordLength (hello ++ frame ++ later) + i = hello.length := by
        by_contra hne
        exact htags _ (by omega) (by omega) hne htagged
      have hfive : 5 ≤ hello.length := by omega
      rw [hstream, recordLength_append _ hfive] at hpos
      rw [hstream] at htakes
      exact (takesRecord_append _ hfive (by omega)).mp htakes

end Frame

/-! ## The answer of the server -/

/-- A record of a type that the client takes, with nothing behind it. -/
theorem oneRecord_of_body {body : Bytes} (hbody : body.length ≤ 16384) :
    OneRecord ([0x16, 0x03, 0x03] ++ putBE 2 body.length ++ body) := by
  have hrecord : recordLength ([0x16, 0x03, 0x03] ++ putBE 2 body.length ++ body) = body.length := by
    rw [recordLength, slice_append_left _ _ (by simp), slice_append_right [0x16, 0x03, 0x03] _ 3 2 rfl,
      List.take_of_length_le (by simp), getBE_putBE_of_lt (by omega)]
  have hlen : ([0x16, 0x03, 0x03] ++ putBE 2 body.length ++ body : Bytes).length =
      5 + body.length := by
    simp only [List.length_append, length_putBE]
    rfl
  rw [OneRecord, TakesRecord, hrecord, hlen]
  exact ⟨⟨by omega, .inl rfl, hbody, le_rfl⟩, by omega⟩

/-- The record that the server builds itself. -/
theorem oneRecord_buildTLSServerHelloRecord {sessionID random serverShare : Bytes}
    (hid : sessionID.length = 32) (hrandom : random.length = 32) (hshare : serverShare.length = 32) :
    OneRecord (buildTLSServerHelloRecord sessionID random serverShare) := by
  unfold buildTLSServerHelloRecord
  refine oneRecord_of_body ?_
  simp [hid, hrandom, hshare]

/-- An answer has at least the header of a record. -/
theorem length_fetchServerHelloFromFallback {targetAddr clientHello answer : Bytes} {target : Target}
    (h : fetchServerHelloFromFallback targetAddr target clientHello = some answer) :
    5 ≤ answer.length := by
  unfold fetchServerHelloFromFallback at h
  split at h
  · cases h
  · split at h
    · cases h
    · dsimp only at h
      split at h
      · cases h
      · rename_i hok
        have hfirst := readAtLeast_length _ _ _ _ (not_not.mp hok)
        split at h
        · obtain rfl := Option.some.inj h
          exact hfirst.trans (prefix_readAtLeast _ _ _ _).length_le
        · obtain rfl := Option.some.inj h
          exact hfirst

/-- **What the server writes**: its own record, or the answer of the fallback target. -/
theorem oneRecord_serverHello_iff {env : Surroundings} (clientHello : Bytes) {sessionID : Bytes}
    (hid : sessionID.length = 32) (hrandom : env.random.length = 32)
    (hshare : env.serverShare.length = 32) :
    OneRecord (env.serverHello clientHello sessionID) ↔
      ∀ answer, fetchServerHelloFromFallback env.fallbackTarget env.target clientHello =
        some answer → OneRecord answer := by
  have hbuilt := oneRecord_buildTLSServerHelloRecord hid hrandom hshare
  unfold Surroundings.serverHello
  dsimp only
  split
  · cases hfetch : fetchServerHelloFromFallback env.fallbackTarget env.target clientHello with
    | none => simpa using hbuilt
    | some answer =>
      have hlen := length_fetchServerHelloFromFallback hfetch
      simp [show answer.length ≠ 0 by omega]
  · rename_i hnone
    refine iff_of_true hbuilt fun answer hfetch => ?_
    rw [fetchServerHelloFromFallback, if_pos (not_not.mp hnone)] at hfetch
    cases hfetch

section Authentic

variable {P : Primitives} {d : RealityDemuxer} {env : Surroundings} {conn : Feed UInt8}

/-- What `processIncoming` writes to an authentic client. -/
theorem serverHello_of_authenticated {hello : Bytes} {tunnel : PeekedConn}
    (h : (d.processIncoming P env conn).1 = .authenticated hello tunnel) :
    ∃ sessionID, sessionID.length = 32 ∧ hello = env.serverHello
      (conn.beforeFault.take (5 + recordLength conn.beforeFault)) sessionID := by
  have hjudge : (judge P d env conn.beforeFault).1 = .authenticated hello := by
    rw [← decision_processIncoming, h]
    rfl
  have hturned : env.turnedAway ≠ .authenticated hello := by
    unfold Surroundings.turnedAway
    split <;> simp
  unfold judge at hjudge
  split at hjudge
  · exact absurd hjudge hturned
  · split at hjudge
    · exact absurd hjudge hturned
    · rename_i parsed hparsed
      dsimp only at hjudge
      split at hjudge
      · exact absurd hjudge hturned
      · rename_i hpassed
        split at hjudge
        · cases hjudge
        · refine ⟨parsed.sessionID, ?_, (Decision.authenticated.inj hjudge).symm⟩
          -- only a token of the right length passes
          have hverdict := not_not.mp hpassed
          unfold processIncoming at hverdict
          split at hverdict
          · cases hverdict
          · split at hverdict
            · cases hverdict
            · rename_i hverified
              exact ((verifySessionID_iff _ _ _ _ _).mp (not_not.mp hverified)).1

/-- **When an authentic client reaches the handshake.** For every demultiplexer, every connection it
finds authentic, every fallback target and whatever this answers: the client gets the payload of the
server's hello frame exactly when the answer, if one was fetched, begins with a whole record that the
client takes and has at most 4068 bytes behind it. -/
theorem authentic_client_reads_iff (hP : P.Lawful) {hello : Bytes} {tunnel : PeekedConn}
    (hauth : (d.processIncoming P env conn).1 = .authenticated hello tunnel)
    (hrandom : env.random.length = 32) (hshare : env.serverShare.length = 32)
    {serverPub payload nonce frame : Bytes}
    (hframe : buildHelloFrame P serverPub payload nonce = .ok frame)
    (hn : nonce.length = helloNonceSize) {later : Bytes}
    (htags : OnlyTagAt P serverPub (hello ++ frame ++ later) hello.length) :
    clientReads P serverPub (hello ++ frame ++ later) = .ok payload ↔
      ∀ answer, fetchServerHelloFromFallback env.fallbackTarget env.target
        (conn.beforeFault.take (5 + recordLength conn.beforeFault)) = some answer →
          OneRecord answer := by
  obtain ⟨sessionID, hid, rfl⟩ := serverHello_of_authenticated hauth
  rw [clientReads_iff hP hframe hn htags]
  exact oneRecord_serverHello_iff _ hid hrandom hshare

end Authentic

/-! ## Two answers -/

theorem authenticated_of_decision {h : Handling} {hello : Bytes}
    (hd : h.decision = .authenticated hello) : ∃ tunnel, h = .authenticated hello tunnel := by
  cases h with
  | fallback firstBytes conn => cases hd
  | closed => cases hd
  | authenticated hello' tunnel =>
    cases hd
    exact ⟨tunnel, rfl⟩

/-- A fallback target that sends back an alert. -/
def alertSurroundings : Surroundings :=
  { sampleSurroundings with
    fallbackTarget := ascii "example.com:443"
    target := ⟨true, true, fun _ => [.data [0x15, 0x03, 0x03, 0x00, 0x02, 0x02, 0x28]]⟩ }

/-- The alert is passed on to an authentic client, which gives up, whatever comes behind it. -/
theorem alert_ends_client :
    (sampleDemuxer.processIncoming .sample alertSurroundings sampleConn).1.decision =
      .authenticated [0x15, 0x03, 0x03, 0x00, 0x02, 0x02, 0x28] ∧
    ∀ serverPub rest, clientReads .sample serverPub
      ([0x15, 0x03, 0x03, 0x00, 0x02, 0x02, 0x28] ++ rest) =
        .error "unexpected TLS record content type: 0x15" := by
  refine ⟨by decide +kernel, fun serverPub rest => ?_⟩
  have hread := readFull_append (n := 5) [0x15, 0x03, 0x03, 0x00, 0x02] ([0x02, 0x28] ++ rest) rfl
  have herr : readServerHello ([0x15, 0x03, 0x03, 0x00, 0x02, 0x02, 0x28] ++ rest) =
      .error ("unexpected TLS record content type: 0x" ++ formatHex 2 0x15) := by
    rw [readServerHello]
    erw [hread]
    rfl
  rw [clientReads, herr]
  exact congrArg Except.error (by decide +kernel)

/-- A fallback target that answers with one short record, in two segments. -/
def recordSurroundings : Surroundings :=
  { alertSurroundings with
    target := ⟨true, true, fun _ => [.data [0x16, 0x03, 0x03, 0x00, 0x02, 0x01], .data [0x02]]⟩ }

/-- Behind a record the client finds the frame. -/
theorem record_reaches_client : ∃ frame,
    buildHelloFrame .sample [1] [] (fill 16 UInt8.ofNat) = .ok frame ∧
    clientReads .sample [1] ([0x16, 0x03, 0x03, 0x00, 0x02, 0x01, 0x02] ++ frame ++ []) = .ok [] := by
  obtain ⟨tunnel, hauth⟩ := authenticated_of_decision
    (show (sampleDemuxer.processIncoming .sample recordSurroundings sampleConn).1.decision =
      .authenticated [0x16, 0x03, 0x03, 0x00, 0x02, 0x01, 0x02] by decide +kernel)
  refine ⟨_, rfl, ?_⟩
  refine (authentic_client_reads_iff sample_lawful hauth rfl rfl rfl rfl (by decide +kernel)).mpr ?_
  intro answer hanswer
  have hfetch : fetchServerHelloFromFallback recordSurroundings.fallbackTarget
      recordSurroundings.target (sampleConn.beforeFault.take (5 + recordLength sampleConn.beforeFault)) =
        some [0x16, 0x03, 0x03, 0x00, 0x02, 0x01, 0x02] := by decide +kernel
  rw [hfetch] at hanswer
  cases hanswer
  decide

end ObsidianVPN.Reality
