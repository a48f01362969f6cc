import ObsidianVPN.Client.Config
import ObsidianVPN.Handshake.Complete
import ObsidianVPN.Handshake.HelloFrame

/-!
# The client's hello at the server

The client opens a connection with the HTTP/2 preface, a SETTINGS frame, the trains and its hello
frame. The server reads the preface and then scans at most 4096 bytes for the frame.

* `runConnection`: what the client sends up to its hello, `receiveHello`: what the server reads;
* `longestBefore`: the largest number of bytes a configuration puts between preface and hello frame;
  **`before_le_iff`**: this number is reached;
* **`receiveHello_iff`**: the server gets the hello of a connection when at most 4068 bytes come
  before its frame;
* **`hello_reached_iff`**: the two together, for every configuration without REALITY.
-/

namespace ObsidianVPN.Client

open ByteStr GoString Handshake

/-! ## The two ends -/

def http2Preface : Bytes := ascii "PRI * HTTP/2.0\r\n\r\nSM\r\n\r\n"
def http2SettingsFrame : Bytes := [0, 0, 0, 4, 0, 0, 0, 0, 0]

/-- The random choices and the clock of one connection. -/
structure Draws where
  trains : TrainDraws
  now : ℕ
  pad : PadDraws
  nonce : ℕ → UInt8

/-- What a connection sends: the preface, the bytes up to the hello frame, and the frame. -/
structure Sent where
  preface : Bytes
  before : Bytes
  hello : Bytes
  frame : Bytes

def Sent.stream (sent : Sent) : Bytes := sent.preface ++ (sent.before ++ sent.frame)

/-- The signatures are sent without TLS only. -/
def signatureTrain (cfg : ClientConfig) (d : TrainDraws) : Bytes :=
  if cfg.noTLS then buildSignatureTrain cfg.obfuscation.signatures d else []

def signatureBytes (cfg : ClientConfig) : ℕ :=
  if cfg.noTLS then signatureTrainSize cfg.obfuscation.signatures else 0

/-- `runConnection` up to the hello. The HTTP/2 preface and the junk are left out with REALITY. -/
def runConnection (P : Primitives) (cfg : ClientConfig) (c : ClientHandshake Bytes) (d : Draws) :
    Except String Sent :=
  let opening := if cfg.isReality then ([], []) else (http2Preface, http2SettingsFrame)
  let sigs := signatureTrain cfg d.trains
  match if cfg.isReality then .ok ([], 0) else buildJunkTrain cfg.obfuscation d.trains with
  | .error err => .error ("junk train: " ++ err)
  | .ok (junk, _) =>
    match buildHello P cfg.obfuscation c d.now d.pad with
    | .error err => .error ("build hello: " ++ err)
    | .ok (hello, _) =>
      match buildHelloFrame P c.serverStaticPub hello (fill helloNonceSize d.nonce) with
      | .error err => .error ("build hello frame: " ++ err)
      | .ok frame => .ok ⟨opening.1, opening.2 ++ sigs ++ junk, hello, frame⟩

def recvHTTP2Preface (stream : Bytes) : Except String Unit × Bytes :=
  match readFull http2Preface.length stream with
  | (.error err, rest) => (.error err, rest)
  | (.ok buf, rest) =>
    if buf = http2Preface then (.ok (), rest)
    else (.error "expected HTTP/2 preface not found", rest)

/-- `handleClient` up to the hello, in the modes without REALITY: the hello or the error, and what
is left to read. -/
def receiveHello (P : Primitives) (pub stream : Bytes) : Except String Bytes × Bytes :=
  match recvHTTP2Preface stream with
  | (.error err, rest) => (.error err, rest)
  | (.ok (), rest) => readHelloFrame P pub 4096 8192 rest

/-- The largest number of bytes before the hello frame. -/
def longestBefore (cfg : ClientConfig) : ℤ :=
  9 + signatureBytes cfg + maxJunkTrain cfg.obfuscation

/-! ## The client -/

variable {P : Primitives} {c : ClientHandshake Bytes} {s : ServerHandshake Bytes}

/-- The hello of a session fits into a frame. -/
theorem buildHello_fits (hP : P.Lawful) (hpeers : Peers P c s) (cfg : ClientConfig) (now : ℕ)
    (r : PadDraws) : ∃ hello tmpCipher,
      buildHello P cfg.obfuscation c now r = .ok (hello, tmpCipher) ∧ hello.length ≤ 8192 := by
  obtain ⟨fields, tmpCipher, -, hb, hsize, hidentity, -⟩ := hpeers.accepts hP (unix now)
  obtain ⟨hmin, hmin', hmax⟩ := obfuscation_padding cfg
  have hmax' : cfg.obfuscation.s1Max < 2 ^ 63 := by omega
  obtain ⟨s1, hs1, hlen⟩ := randomPadding_ok ⟨hmin, hmax'⟩ r
  refine ⟨_, tmpCipher, buildHello_ok.mpr ⟨fields, tmpCipher, s1, hb, hs1, rfl⟩, ?_⟩
  have hpre := length_prePadding_le cfg.obfuscation.prePadMax r
  simp only [encodeClientHello, List.length_append, length_putBE, hsize.ephPub, hsize.mlkemPub,
    hsize.salt, hidentity, keySize, mlkemEncapsulationKeySize]
  omega

theorem length_signatureTrain (cfg : ClientConfig) (d : TrainDraws) :
    (signatureTrain cfg d).length = signatureBytes cfg := by
  unfold signatureTrain signatureBytes
  split
  · exact length_buildSignatureTrain _ d
  · rfl

/-- **A connection**: the client sends a frame with its hello, behind the SETTINGS frame and the
trains. -/
theorem runConnection_ok (hP : P.Lawful) (hpeers : Peers P c s) {cfg : ClientConfig}
    (hreality : cfg.isReality = false) {d : Draws} {junk : Bytes} {count : ℕ}
    (hjunk : buildJunkTrain cfg.obfuscation d.trains = .ok (junk, count)) :
    ∃ sent, runConnection P cfg c d = .ok sent ∧ sent.preface = http2Preface ∧
      sent.before = http2SettingsFrame ++ signatureTrain cfg d.trains ++ junk ∧
      buildHelloFrame P s.staticPub sent.hello (fill helloNonceSize d.nonce) = .ok sent.frame := by
  obtain ⟨hello, tmpCipher, hhello, hfits⟩ := buildHello_fits hP hpeers cfg d.now d.pad
  have hframe := (buildHelloFrame_ok (P := P)).mpr
    ⟨hfits, (rfl : _ = helloHead P s.staticPub (fill helloNonceSize d.nonce) hello.length ++ hello)⟩
  refine ⟨⟨http2Preface, http2SettingsFrame ++ signatureTrain cfg d.trains ++ junk, hello, _⟩, ?_,
    rfl, rfl, hframe⟩
  simp only [runConnection, hreality, hpeers.pinned, Bool.false_eq_true, if_false, hjunk, hhello,
    hframe]

/-- The number of bytes before the hello frame. -/
theorem length_before {cfg : ClientConfig} {d : Draws} {junk before : Bytes}
    (h : before = http2SettingsFrame ++ signatureTrain cfg d.trains ++ junk) :
    (before.length : ℤ) = 9 + signatureBytes cfg + junk.length := by
  rw [h, List.length_append, List.length_append, length_signatureTrain]
  push_cast
  rfl

/-- **The longest opening is reached**: `n` bytes are enough for every connection exactly when they
are enough for it. -/
theorem before_le_iff (hP : P.Lawful) (hpeers : Peers P c s) {cfg : ClientConfig}
    (hreality : cfg.isReality = false) (n : ℤ) :
    (∀ d sent, runConnection P cfg c d = .ok sent → (sent.before.length : ℤ) ≤ n) ↔
      longestBefore cfg ≤ n := by
  constructor
  · intro h
    let d : Draws := ⟨⟨fun _ => 0, fun _ _ _ => 0, 0, fun _ => 0, fun _ _ => 0⟩, 0,
      ⟨0, fun _ => 0, 0, fun _ => 0⟩, fun _ => 0⟩
    obtain ⟨junk, count, hjunk, hlen⟩ := buildJunkTrain_longest (obfuscation_junk cfg) d.trains
    let d' : Draws := { d with trains := d.trains.longest cfg.obfuscation }
    obtain ⟨sent, hsent, -, hbefore, -⟩ := runConnection_ok (d := d') hP hpeers hreality hjunk
    have hle := h _ sent hsent
    rw [length_before hbefore, hlen] at hle
    exact hle
  · intro h d sent hsent
    obtain ⟨junk, count, hjunk, hlen⟩ := buildJunkTrain_ok (obfuscation_junk cfg) d.trains
    obtain ⟨sent', hsent', -, hbefore, -⟩ := runConnection_ok hP hpeers hreality hjunk
    obtain rfl := Except.ok.inj (hsent'.symm.trans hsent)
    rw [length_before hbefore]
    unfold longestBefore at h
    omega

/-! ## The server -/

/-- The server reads the preface and scans the rest. -/
theorem receiveHello_stream {sent : Sent} (hpreface : sent.preface = http2Preface)
    (pub rest : Bytes) : receiveHello P pub (sent.stream ++ rest) =
      readHelloFrame P pub 4096 8192 (sent.before ++ sent.frame ++ rest) := by
  rw [receiveHello, recvHTTP2Preface, Sent.stream, hpreface, List.append_assoc,
    readFull_append _ _ rfl]
  simp only [if_true]

/-- **The server gets the hello exactly when at most 4068 bytes come before its frame**, if none of
them is taken for a frame by accident. -/
theorem receiveHello_iff (hP : P.Lawful) {pub nonce : Bytes} {sent : Sent}
    (hn : nonce.length = helloNonceSize) (hpreface : sent.preface = http2Preface)
    (hframe : buildHelloFrame P pub sent.hello nonce = .ok sent.frame)
    (hclean : Unambiguous P pub sent.before sent.frame) (rest : Bytes) :
    receiveHello P pub (sent.stream ++ rest) = (.ok sent.hello, rest) ↔
      sent.before.length ≤ 4068 := by
  have hover : helloFrameOverhead = 28 := rfl
  rw [receiveHello_stream hpreface]
  constructor
  · intro h
    by_contra hlong
    rw [readHelloFrame_missed hP hframe hn hclean (by omega) (by omega)] at h
    exact absurd (Prod.mk.inj h).1 (by simp)
  · intro hshort
    have hfits := (buildHelloFrame_ok.mp hframe).1
    exact readHelloFrame_reached hP hframe hn hclean (by omega) (by omega) rest

/-- **The hello and the scan limit.** Without REALITY, for every configuration and all draws: the
client sends its hello, and the server gets it exactly when at most 4068 bytes come before its
frame, if none of them is taken for a frame by accident. All draws of a configuration keep this
limit exactly when its longest opening does. -/
theorem hello_reached_iff (hP : P.Lawful) (hpeers : Peers P c s) {cfg : ClientConfig}
    (hreality : cfg.isReality = false) :
    (∀ d, ∃ sent, runConnection P cfg c d = .ok sent ∧
      (Unambiguous P s.staticPub sent.before sent.frame → ∀ rest,
        (receiveHello P s.staticPub (sent.stream ++ rest) = (.ok sent.hello, rest) ↔
          sent.before.length ≤ 4068))) ∧
      ((∀ d sent, runConnection P cfg c d = .ok sent → sent.before.length ≤ 4068) ↔
        longestBefore cfg ≤ 4068) := by
  constructor
  · intro d
    obtain ⟨junk, count, hjunk, -⟩ := buildJunkTrain_ok (obfuscation_junk cfg) d.trains
    obtain ⟨sent, hsent, hpreface, -, hframe⟩ := runConnection_ok hP hpeers hreality hjunk
    exact ⟨sent, hsent, fun hclean rest =>
      receiveHello_iff hP (length_fill _ _) hpreface hframe hclean rest⟩
  · rw [← before_le_iff hP hpeers hreality]
    exact_mod_cast Iff.rfl

/-! ## Two configurations -/

/-- The sample with a hash that is never found in the bytes below. -/
def constantHash : Primitives :=
  { Primitives.sample with sha256 := fun _ => List.replicate 32 0xff }

theorem constantHash_lawful : constantHash.Lawful :=
  { sample_lawful with length_sha256 := fun _ => rfl }

def sampleKey : Bytes := List.replicate keySize 7

def sampleClient : ClientHandshake Bytes :=
  newClientHandshake constantHash sampleKey (newKeypair constantHash sampleKey) sampleKey [3]
    (List.replicate 32 4)

def sampleServer : ServerHandshake Bytes :=
  newServerHandshake constantHash sampleKey sampleKey none sampleKey

theorem samplePeers : Peers constantHash sampleClient sampleServer :=
  ⟨⟨rfl, rfl⟩, ⟨rfl, rfl⟩, rfl, rfl, ⟨rfl, rfl⟩, ⟨rfl, rfl⟩, rfl, fun _ h => nomatch h⟩

/-- Seven junk packets of 999 bytes. -/
def sevenPackets : Draws where
  trains := ⟨fun _ => 0, fun _ _ _ => 0, 6, fun _ => 949, fun _ _ => 0⟩
  now := 0
  pad := ⟨0, fun _ => 0, 0, fun _ => 0⟩
  nonce _ := 0

/-- With the default configuration 7030 bytes can come before the hello, and the server gives up. -/
theorem hello_missed_defaultClientConfig :
    ∃ sent, runConnection constantHash defaultClientConfig sampleClient sevenPackets = .ok sent ∧
      Unambiguous constantHash sampleKey sent.before sent.frame ∧ sent.before.length = 7030 ∧
      (receiveHello constantHash sampleKey sent.stream).1 =
        .error "hello frame not found after 4096 bytes" := by
  obtain ⟨junk, count, hjunk, hcount, hlen⟩ :=
    buildJunkTrain_sum (obfuscation_junk defaultClientConfig) sevenPackets.trains
  obtain ⟨sent, hsent, hpreface, hbefore, hframe⟩ :=
    runConnection_ok constantHash_lawful samplePeers rfl hjunk
  have hseven : count = 7 := by exact_mod_cast hcount.trans (by decide : (1 + 6 % 7 : ℤ) = 7)
  have hsize : ∀ j, randomRangeInt defaultClientConfig.obfuscation.junkMin
      defaultClientConfig.obfuscation.junkMax (sevenPackets.trains.junkSize j) = 999 :=
    fun _ => (by decide : randomRangeInt 50 1000 949 = 999)
  have hbytes : sent.before.length = 7030 := by
    have hsum := length_before hbefore
    rw [hlen, hseven, Finset.sum_congr rfl fun j _ => congrArg (4 + ·) (hsize j), Finset.sum_const,
      (by decide : signatureBytes defaultClientConfig = 0)] at hsum
    simp only [Finset.card_range, nsmul_eq_mul] at hsum
    omega
  have hclean : Unambiguous constantHash sampleKey sent.before sent.frame := by
    refine unambiguous_of_notMem (x := 0xff) (fun _ => rfl) ?_ ?_
    · rw [hbefore, List.mem_append, not_or]
      refine ⟨by decide, fun hmem => ?_⟩
      obtain ⟨j, hhead | ⟨k, hk⟩⟩ := mem_buildJunkTrain hjunk hmem
      · rw [hsize] at hhead
        exact absurd hhead (by decide)
      · exact absurd hk (by decide : (0xff : UInt8) ≠ 0)
    · rw [(buildHelloFrame_ok.mp hframe).2, helloHead, List.append_assoc,
        List.take_left' (length_fill helloNonceSize _)]
      decide
  refine ⟨sent, hsent, hclean, hbytes, ?_⟩
  have hmissed := readHelloFrame_missed constantHash_lawful hframe rfl hclean
    (by decide : (helloFrameOverhead : ℤ) ≤ 4096) (by rw [hbytes]; decide) 8192 []
  rw [← receiveHello_stream hpreface, List.append_nil] at hmissed
  exact congrArg Prod.fst hmissed

/-- The junk of the source's own defaults stays within the limit. -/
theorem hello_reached_defaultObfuscation :
    let cfg := { defaultClientConfig with
      junkCount := 0
      junkMin := 0
      junkMax := 0 }
    longestBefore cfg = 1554 ∧ ∀ d, ∃ sent,
      runConnection constantHash cfg sampleClient d = .ok sent ∧
      (Unambiguous constantHash sampleKey sent.before sent.frame → ∀ rest,
        receiveHello constantHash sampleKey (sent.stream ++ rest) = (.ok sent.hello, rest)) := by
  intro cfg
  have hlongest : longestBefore cfg = 1554 := by decide +kernel
  refine ⟨hlongest, fun d => ?_⟩
  obtain ⟨hsent, hlimit⟩ :=
    hello_reached_iff constantHash_lawful samplePeers (rfl : cfg.isReality = false)
  obtain ⟨sent, hrun, hiff⟩ := hsent d
  exact ⟨sent, hrun, fun hclean rest =>
    (hiff hclean rest).mpr (hlimit.mpr (by rw [hlongest]; decide) d sent hrun)⟩

end ObsidianVPN.Client
