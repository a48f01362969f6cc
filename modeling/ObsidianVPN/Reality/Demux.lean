import ObsidianVPN.Lib.Feed
import ObsidianVPN.Reality.ClientHello
import ObsidianVPN.Reality.Token

/-!
# The REALITY demultiplexer and the byte stream

`processIncoming` reads the first TLS record of a connection, decides what to do with it, and passes
the connection on: to the fallback target with the bytes it has read, or to the tunnel with those it
has read too many.

* `buildTLSServerHelloRecord`, `fetchServerHelloFromFallback`: the answer to an authentic client;
* `PeekedConn`: a connection with bytes put back in front of it;
* `peekRecord`, `RealityDemuxer.processIncoming`: the code;
* `judge`: the decision as a function of the stream; **`decision_processIncoming`**: it is the
  decision of the code for every segmentation;
* `Handling.Keeps`, **`keeps_processIncoming`**: where the bytes of the stream are;
* **`demux_stream`**: the two together, with the reads of the tunnel.
-/

namespace ObsidianVPN.Reality

open ByteStr GoString

/-! ## The answer to an authentic client -/

/-- `buildTLSServerHelloRecord`, with its two random draws as arguments. -/
def buildTLSServerHelloRecord (sessionID random serverShare : Bytes) : Bytes :=
  let extBytes : Bytes := [0x00, 0x2b, 0x00, 0x02, 0x03, 0x04] ++
    [0x00, 0x33, 0x00, 0x24, 0x00, 0x1d, 0x00, 0x20] ++ serverShare
  let shMsg : Bytes := [0x03, 0x03] ++ random ++ [UInt8.ofNat sessionID.length] ++ sessionID ++
    [0x13, 0x01] ++ [0x00] ++ putBE 2 extBytes.length ++ extBytes
  let fullPayload : Bytes := [0x02] ++ putBE 3 shMsg.length ++ shMsg
  [0x16, 0x03, 0x03] ++ putBE 2 fullPayload.length ++ fullPayload

/-- The fallback target: whether it can be dialled and takes what is written to it, and what it
answers. -/
structure Target where
  dialed : Bool
  takesHello : Bool
  answer : Bytes → Feed UInt8

/-- The size of the buffers in `processIncoming` and in `fetchServerHelloFromFallback`. -/
def peekSize : ℕ := 4096

def fetchServerHelloFromFallback (targetAddr : Bytes) (target : Target) (clientHello : Bytes) :
    Option Bytes :=
  if targetAddr = [] then none
  else if ¬target.dialed ∨ ¬target.takesHello then none
  else
    let first := readAtLeast peekSize 5 [] (target.answer clientHello)
    if ¬first.ok then none
    else if first.buf.getD 0 0 = 0x16 then
      let needed := 5 + recordLength first.buf
      -- a failed read ends the loop and what has come is returned
      some (readAtLeast needed needed first.buf first.rest).buf
    else some first.buf

/-- What `processIncoming` meets besides the bytes of the connection: the configured fallback, the
clock as `VerifySessionID` and `SeenOrAdd` read it, the random draws, and whether the client can be
written to. -/
structure Surroundings where
  fallbackTarget : Bytes
  target : Target
  verifyNow : ℕ
  seenNow : ℕ
  random : Bytes
  serverShare : Bytes
  writeOK : Bool

/-- The bytes `processIncoming` writes to an authentic client. -/
def Surroundings.serverHello (env : Surroundings) (clientHello sessionID : Bytes) : Bytes :=
  let built := buildTLSServerHelloRecord sessionID env.random env.serverShare
  if env.fallbackTarget ≠ [] then
    match fetchServerHelloFromFallback env.fallbackTarget env.target clientHello with
    | some hello => if hello.length = 0 then built else hello
    | none => built
  else built

/-! ## Connections with bytes put back -/

structure PeekedConn where
  conn : Feed UInt8
  peeked : Bytes
  offset : ℕ

namespace PeekedConn

def newPeekedConn (conn : Feed UInt8) (peeked : Bytes) : PeekedConn := ⟨conn, peeked, 0⟩

/-- `Read` into a buffer of `k` bytes. -/
def read (c : PeekedConn) (k : ℕ) : Option Bytes × PeekedConn :=
  if c.offset < c.peeked.length then
    let b := (c.peeked.drop c.offset).take k
    let offset := c.offset + b.length
    let peeked := if offset ≥ c.peeked.length then [] else c.peeked
    (some b, { c with offset := offset, peeked := peeked })
  else ((c.conn.read k).1, { c with conn := (c.conn.read k).2 })

/-- Reads one after the other, with buffers of the given sizes: all the bytes they return, and the
connection after them. -/
def readMany (c : PeekedConn) : List ℕ → Bytes × PeekedConn
  | [] => ([], c)
  | k :: sizes =>
    ((c.read k).1.getD [] ++ ((c.read k).2.readMany sizes).1, ((c.read k).2.readMany sizes).2)

/-- What can still be read. -/
def unread (c : PeekedConn) : Bytes := c.peeked.drop c.offset ++ c.conn.content

def weight (c : PeekedConn) : ℕ := (c.peeked.drop c.offset).length + c.conn.weight

section Read

variable {c : PeekedConn} (k : ℕ)

theorem read_peeked (h : c.offset < c.peeked.length) :
    (c.read k).1 = some ((c.peeked.drop c.offset).take k) ∧ (c.read k).2.conn = c.conn ∧
      (c.read k).2.peeked.drop (c.read k).2.offset =
        (c.peeked.drop c.offset).drop ((c.peeked.drop c.offset).take k).length := by
  rw [read, if_pos h]
  refine ⟨rfl, rfl, ?_⟩
  dsimp only
  rw [List.drop_drop]
  split
  · rw [List.drop_nil, List.drop_of_length_le ‹_›]
  · rfl

theorem read_conn (h : ¬ c.offset < c.peeked.length) :
    (c.read k).1 = (c.conn.read k).1 ∧ (c.read k).2 = { c with conn := (c.conn.read k).2 } := by
  rw [read, if_neg h]
  exact ⟨rfl, rfl⟩

variable (c)

theorem unread_read : (c.read k).1.getD [] ++ (c.read k).2.unread = c.unread := by
  by_cases h : c.offset < c.peeked.length
  · obtain ⟨hbytes, hconn, hleft⟩ := read_peeked k h
    rw [hbytes, unread, hconn, hleft, Option.getD_some, ← List.append_assoc,
      List.prefix_iff_eq_append.mp (List.take_prefix _ _), unread]
  · obtain ⟨hbytes, hafter⟩ := read_conn k h
    have hpeeked : c.peeked.drop c.offset = [] := List.drop_of_length_le (not_lt.mp h)
    rw [hbytes, hafter]
    simp only [unread, hpeeked, List.nil_append]
    exact Feed.content_read k c.conn

/-- A read takes something away, until nothing is left. -/
theorem weight_read (hk : 0 < k) : (c.read k).2.weight ≤ c.weight - 1 := by
  by_cases h : c.offset < c.peeked.length
  · obtain ⟨-, hconn, hleft⟩ := read_peeked k h
    have hpos : 0 < (c.peeked.drop c.offset).length := by
      rw [List.length_drop]
      omega
    rw [weight, hconn, hleft, weight, List.length_drop, List.length_take]
    omega
  · obtain ⟨-, hafter⟩ := read_conn k h
    have hpeeked : c.peeked.drop c.offset = [] := List.drop_of_length_le (not_lt.mp h)
    rw [hafter]
    simp only [weight, hpeeked, List.length_nil, Nat.zero_add]
    by_cases hconn : c.conn = []
    · rw [hconn]
      exact Nat.zero_le _
    · exact Nat.le_sub_one_of_lt (Feed.weight_read hk hconn)

theorem unread_readMany (sizes : List ℕ) :
    (c.readMany sizes).1 ++ (c.readMany sizes).2.unread = c.unread := by
  induction sizes generalizing c with
  | nil => rfl
  | cons k sizes ih =>
    rw [← unread_read c k, ← ih (c.read k).2, ← List.append_assoc]
    rfl

theorem weight_readMany {sizes : List ℕ} (hpos : ∀ k ∈ sizes, 0 < k) :
    (c.readMany sizes).2.weight ≤ c.weight - sizes.length := by
  induction sizes generalizing c with
  | nil => exact le_rfl
  | cons k sizes ih =>
    have hfirst := weight_read c k (hpos k List.mem_cons_self)
    have hrest := ih (c.read k).2 fun j hj => hpos j (List.mem_cons_of_mem k hj)
    show ((c.read k).2.readMany sizes).2.weight ≤ _
    rw [List.length_cons]
    omega

/-- **Enough reads return everything.** -/
theorem readMany_eq_unread {sizes : List ℕ} (hpos : ∀ k ∈ sizes, 0 < k)
    (hlen : c.weight ≤ sizes.length) : (c.readMany sizes).1 = c.unread := by
  have hweight : (c.readMany sizes).2.weight = 0 := by
    have := weight_readMany c hpos
    omega
  obtain ⟨hpeeked, hconn⟩ := Nat.add_eq_zero_iff.mp hweight
  have hunread : (c.readMany sizes).2.unread = [] := by
    rw [unread, List.length_eq_zero_iff.mp hpeeked, Feed.content_of_weight hconn, List.append_nil]
  rw [← unread_readMany c sizes, hunread, List.append_nil]

end Read

end PeekedConn

/-! ## The code -/

/-- What becomes of a connection: `TransparentSNIProxy` gets it with its first bytes, it is closed,
or it is returned to the tunnel after the server hello. -/
inductive Handling where
  | fallback (firstBytes : Bytes) (conn : Feed UInt8)
  | closed
  | authenticated (serverHello : Bytes) (conn : PeekedConn)

/-- The reading part of `processIncoming`; `ok` when the buffer holds a whole handshake record. -/
def peekRecord (conn : Feed UInt8) : Filled UInt8 :=
  let first := readAtLeast peekSize 5 [] conn
  if first.ok ∧ isTLSRecord first.buf then
    -- the buffer is enlarged if need be
    let needed := 5 + recordLength first.buf
    readAtLeast needed needed first.buf first.rest
  else { first with ok := false }

def Surroundings.turnAway (env : Surroundings) (firstBytes : Bytes) (conn : Feed UInt8) :
    Handling :=
  if env.fallbackTarget ≠ [] then .fallback firstBytes conn else .closed

/-- `processIncoming`, from the first read on. -/
def RealityDemuxer.processIncoming (P : Primitives) (d : RealityDemuxer) (env : Surroundings)
    (conn : Feed UInt8) : Handling × RealityDemuxer :=
  let r := peekRecord conn
  if ¬r.ok then (env.turnAway r.buf r.rest, d)
  else
    match parseTLSClientHello r.buf with
    | .error _ => (env.turnAway r.buf r.rest, d)
    | .ok hello =>
      let verdict := Reality.processIncoming P d
        ⟨hello.sessionID, hello.sni, env.verifyNow, env.seenNow⟩
      if verdict.1 ≠ .passed then (env.turnAway r.buf r.rest, verdict.2)
      else if ¬env.writeOK then (.closed, verdict.2)
      else
        let needed := 5 + recordLength r.buf
        let serverHello := env.serverHello (r.buf.take needed) hello.sessionID
        (.authenticated serverHello (.newPeekedConn r.rest (r.buf.drop needed)), verdict.2)

/-! ## The record in the buffer -/

/-- The stream begins with a whole handshake record. -/
def HasRecord (stream : Bytes) : Prop :=
  5 ≤ stream.length ∧ isTLSRecord stream = true ∧ 5 + recordLength stream ≤ stream.length

instance : DecidablePred HasRecord := fun _ => by
  unfold HasRecord; infer_instance

/-- A part of the stream that is long enough has the record of the stream. -/
theorem hasRecord_append {buf rest : Bytes} (hlen : 5 ≤ buf.length)
    (hrecord : 5 + recordLength (buf ++ rest) ≤ buf.length) :
    HasRecord (buf ++ rest) ↔ HasRecord buf := by
  have hle : buf.length ≤ (buf ++ rest).length := (List.prefix_append _ _).length_le
  rw [HasRecord, HasRecord, isTLSRecord_append rest hlen]
  rw [recordLength_append rest hlen] at hrecord ⊢
  simp only [hlen, hlen.trans hle, hrecord, hrecord.trans hle]

/-- The second loop: from a buffer with the header of a handshake record to one with all of it. -/
theorem readRecord_spec {buf : Bytes} (rest : Feed UInt8) (hlen : 5 ≤ buf.length)
    (hhead : isTLSRecord buf = true) :
    let r := readAtLeast (5 + recordLength buf) (5 + recordLength buf) buf rest
    (r.ok = true ↔ HasRecord (buf ++ rest.beforeFault)) ∧
      (r.ok = true → HasRecord r.buf ∧ r.buf ++ r.rest.beforeFault = buf ++ rest.beforeFault) := by
  intro r
  have hlength : recordLength (buf ++ rest.beforeFault) = recordLength buf :=
    recordLength_append _ hlen
  have hwhole : r.ok = true ↔ HasRecord (buf ++ rest.beforeFault) := by
    have hiff := readAtLeast_ok_iff _ _ buf rest (le_refl (5 + recordLength buf))
    have hle : 5 ≤ (buf ++ rest.beforeFault).length :=
      hlen.trans ((List.prefix_append _ _).length_le)
    rw [hiff, HasRecord, isTLSRecord_append _ hlen, hlength]
    simp only [hhead, hle, true_and]
  refine ⟨hwhole, fun hok => ?_⟩
  have hbuf : 5 + recordLength buf ≤ r.buf.length := readAtLeast_length _ _ buf rest hok
  have hstream : r.buf ++ r.rest.beforeFault = buf ++ rest.beforeFault :=
    readAtLeast_beforeFault _ _ buf rest hok
  refine ⟨(hasRecord_append (Nat.le_of_add_right_le hbuf) ?_).mp (hstream ▸ hwhole.mp hok), hstream⟩
  rwa [hstream, hlength]

section PeekRecord

variable (conn : Feed UInt8)

theorem content_peekRecord :
    (peekRecord conn).buf ++ (peekRecord conn).rest.content = conn.content := by
  have hfirst := readAtLeast_content peekSize 5 [] conn
  unfold peekRecord
  dsimp only
  split
  · rw [readAtLeast_content]
    exact hfirst
  · exact hfirst

/-- The reading part succeeds exactly on a stream with a record, and then the buffer holds it. -/
theorem peekRecord_spec :
    ((peekRecord conn).ok = true ↔ HasRecord conn.beforeFault) ∧
      ((peekRecord conn).ok = true → HasRecord (peekRecord conn).buf ∧
        (peekRecord conn).buf ++ (peekRecord conn).rest.beforeFault = conn.beforeFault) := by
  have hiff : (readAtLeast peekSize 5 [] conn).ok = true ↔ 5 ≤ conn.beforeFault.length :=
    readAtLeast_ok_iff peekSize 5 [] conn (by decide)
  have hlen := readAtLeast_length peekSize 5 [] conn
  have hstream := readAtLeast_beforeFault peekSize 5 [] conn
  rw [List.nil_append] at hstream
  unfold peekRecord
  generalize readAtLeast peekSize 5 [] conn = first at hiff hlen hstream
  dsimp only
  by_cases hok : first.ok = true
  · by_cases hhead : isTLSRecord first.buf = true
    · rw [if_pos ⟨hok, hhead⟩, ← hstream hok]
      exact readRecord_spec first.rest (hlen hok) hhead
    · have htls : isTLSRecord conn.beforeFault = false := by
        rw [← hstream hok, isTLSRecord_append _ (hlen hok)]
        exact Bool.eq_false_of_not_eq_true hhead
      rw [if_neg fun h => hhead h.2]
      simp [HasRecord, htls]
  · have hshort : ¬ 5 ≤ conn.beforeFault.length := fun h => hok (hiff.mpr h)
    rw [if_neg fun h => hok h.1]
    simp [HasRecord, hshort]

end PeekRecord

/-! ## The decision -/

inductive Decision where
  | fallback
  | closed
  | authenticated (serverHello : Bytes)
  deriving DecidableEq

def Handling.decision : Handling → Decision
  | fallback _ _ => .fallback
  | closed => .closed
  | authenticated serverHello _ => .authenticated serverHello

def Surroundings.turnedAway (env : Surroundings) : Decision :=
  if env.fallbackTarget ≠ [] then .fallback else .closed

/-- The decision about a stream, and the demultiplexer after it. -/
def judge (P : Primitives) (d : RealityDemuxer) (env : Surroundings) (stream : Bytes) :
    Decision × RealityDemuxer :=
  if ¬HasRecord stream then (env.turnedAway, d)
  else
    match parseTLSClientHello stream with
    | .error _ => (env.turnedAway, d)
    | .ok hello =>
      let verdict := processIncoming P d ⟨hello.sessionID, hello.sni, env.verifyNow, env.seenNow⟩
      if verdict.1 ≠ .passed then (env.turnedAway, verdict.2)
      else if ¬env.writeOK then (.closed, verdict.2)
      else
        let record := stream.take (5 + recordLength stream)
        (.authenticated (env.serverHello record hello.sessionID), verdict.2)

theorem decision_turnAway (env : Surroundings) (firstBytes : Bytes) (conn : Feed UInt8) :
    (env.turnAway firstBytes conn).decision = env.turnedAway := by
  unfold Surroundings.turnAway Surroundings.turnedAway
  split <;> rfl

theorem judge_append (P : Primitives) (d : RealityDemuxer) (env : Surroundings) {buf : Bytes}
    (rest : Bytes) (hbuf : HasRecord buf) : judge P d env (buf ++ rest) = judge P d env buf := by
  obtain ⟨hlen, -, hrecord⟩ := id hbuf
  have hlength := recordLength_append rest hlen
  have hstream : HasRecord (buf ++ rest) :=
    (hasRecord_append hlen (by rwa [hlength])).mpr hbuf
  rw [judge, judge, if_neg (not_not.mpr hstream), if_neg (not_not.mpr hbuf),
    parseTLSClientHello_append rest hlen hrecord, hlength, List.take_append_of_le_length hrecord]

/-- **The decision of the code is that about the stream**, however it arrives. -/
theorem decision_processIncoming (P : Primitives) (d : RealityDemuxer) (env : Surroundings)
    (conn : Feed UInt8) :
    ((d.processIncoming P env conn).1.decision, (d.processIncoming P env conn).2) =
      judge P d env conn.beforeFault := by
  obtain ⟨hiff, hbuf⟩ := peekRecord_spec conn
  unfold RealityDemuxer.processIncoming
  by_cases hok : (peekRecord conn).ok = true
  · obtain ⟨hrecord, hstream⟩ := hbuf hok
    rw [← hstream, judge_append P d env _ hrecord, judge, if_neg (not_not.mpr hrecord)]
    dsimp only
    rw [if_neg (not_not.mpr hok)]
    cases parseTLSClientHello (peekRecord conn).buf with
    | error e => simp only [decision_turnAway]
    | ok hello =>
      dsimp only
      split
      · simp only [decision_turnAway]
      · split <;> rfl
  · have hnone : ¬HasRecord conn.beforeFault := fun h => hok (hiff.mpr h)
    dsimp only
    rw [if_pos hok, judge, if_pos hnone]
    simp only [decision_turnAway]

/-! ## The bytes -/

/-- Where the bytes of the stream are: all with the fallback target, or those behind the first
record with the tunnel. -/
def Handling.Keeps (stream : Bytes) : Handling → Prop
  | fallback firstBytes conn => firstBytes ++ conn.content = stream
  | closed => True
  | authenticated _ conn =>
    5 + recordLength stream ≤ stream.length ∧
      conn.unread = stream.drop (5 + recordLength stream)

theorem keeps_turnAway (env : Surroundings) {firstBytes stream : Bytes} {conn : Feed UInt8}
    (h : firstBytes ++ conn.content = stream) : (env.turnAway firstBytes conn).Keeps stream := by
  unfold Surroundings.turnAway
  split
  · exact h
  · trivial

/-- **No byte is lost or repeated.** -/
theorem keeps_processIncoming (P : Primitives) (d : RealityDemuxer) (env : Surroundings)
    (conn : Feed UInt8) : (d.processIncoming P env conn).1.Keeps conn.content := by
  have hcontent := content_peekRecord conn
  unfold RealityDemuxer.processIncoming
  dsimp only
  split
  · exact keeps_turnAway env hcontent
  rename_i hok
  obtain ⟨hlen, -, hrecord⟩ := ((peekRecord_spec conn).2 (not_not.mp hok)).1
  cases parseTLSClientHello (peekRecord conn).buf with
  | error e => exact keeps_turnAway env hcontent
  | ok hello =>
    dsimp only
    split
    · exact keeps_turnAway env hcontent
    · split
      · trivial
      · have hlength : recordLength conn.content = recordLength (peekRecord conn).buf := by
          rw [← hcontent, recordLength_append _ hlen]
        refine ⟨?_, ?_⟩
        · rw [hlength, ← hcontent, List.length_append]
          omega
        · rw [hlength, ← hcontent, List.drop_append_of_le_length hrecord]
          rfl

/-- **The demultiplexer and the byte stream.** The decision depends only on the bytes that arrive
before the first failed read (all of them, if no read fails before the end), not on how they are
cut. On fallback, the bytes handed over and those still unread are the stream. An authentic client's
connection returns, to reads of any sizes, the stream behind its first record: what they return
continues to what is left, and enough of them return all of it. -/
theorem demux_stream (P : Primitives) (d : RealityDemuxer) (env : Surroundings)
    (conn : Feed UInt8) :
    (∀ conn' : Feed UInt8, conn'.beforeFault = conn.beforeFault →
      (d.processIncoming P env conn').1.decision = (d.processIncoming P env conn).1.decision ∧
      (d.processIncoming P env conn').2 = (d.processIncoming P env conn).2) ∧
    (∀ firstBytes left, (d.processIncoming P env conn).1 = .fallback firstBytes left →
      firstBytes ++ left.content = conn.content) ∧
    (∀ serverHello c, (d.processIncoming P env conn).1 = .authenticated serverHello c →
      5 + recordLength conn.content ≤ conn.content.length ∧
      (∀ sizes, (c.readMany sizes).1 ++ (c.readMany sizes).2.unread =
        conn.content.drop (5 + recordLength conn.content)) ∧
      ∃ enough, ∀ sizes : List ℕ, (∀ k ∈ sizes, 0 < k) → enough ≤ sizes.length →
        (c.readMany sizes).1 = conn.content.drop (5 + recordLength conn.content)) := by
  have hkeeps := keeps_processIncoming P d env conn
  refine ⟨?_, ?_, ?_⟩
  · intro conn' hsame
    have hdecision := decision_processIncoming P d env conn'
    rw [hsame, ← decision_processIncoming P d env conn] at hdecision
    exact Prod.mk.inj hdecision
  · intro firstBytes left hfall
    rwa [hfall] at hkeeps
  · intro serverHello c hauth
    rw [hauth] at hkeeps
    obtain ⟨hlen, hunread⟩ := hkeeps
    refine ⟨hlen, ?_, c.weight, ?_⟩
    · intro sizes
      rw [c.unread_readMany, hunread]
    · intro sizes hpos henough
      rw [c.readMany_eq_unread hpos henough, hunread]

/-- A ClientHello with the session id and the server name, in one record. -/
def sampleHello (sessionID name : Bytes) : Bytes :=
  let names : Bytes := [0x00] ++ putBE 2 name.length ++ name
  let list : Bytes := putBE 2 names.length ++ names
  let extension : Bytes := [0x00, 0x00] ++ putBE 2 list.length ++ list
  let message : Bytes := [0x03, 0x03] ++ List.replicate 32 5 ++ putBE 1 sessionID.length ++ sessionID ++
    [0x00, 0x02, 0x13, 0x01] ++ [0x01, 0x00] ++ putBE 2 extension.length ++ extension
  let handshake : Bytes := [0x01] ++ putBE 3 message.length ++ message
  [0x16, 0x03, 0x01] ++ putBE 2 handshake.length ++ handshake

/-- A client that presents a fresh token, with five bytes of the tunnel behind its hello. -/
def sampleStream : Bytes :=
  sampleHello (generateSessionIDWithTimestamp .sample (ascii "key") (ascii "a.b")
    (List.replicate 16 7) 100) (ascii "a.b") ++ [1, 2, 3, 4, 5]

def sampleSurroundings : Surroundings :=
  { fallbackTarget := []
    target := ⟨false, false, fun _ => []⟩
    verifyNow := 100 * second
    seenNow := 100 * second
    random := List.replicate 32 8
    serverShare := List.replicate 32 9
    writeOK := true }

def sampleDemuxer : RealityDemuxer := newRealityDemuxer .sample ⟨[], ascii "key", defaultReplayTTL⟩

/-- The client's connection, cut within the record header and within the bytes behind the record. -/
def sampleConn : Feed UInt8 :=
  [.data (sampleStream.take 3), .data (slice sampleStream 3 95), .data (sampleStream.drop 98)]

theorem demux_stream_sample : ∃ serverHello c,
    (sampleDemuxer.processIncoming .sample sampleSurroundings sampleConn).1 =
      .authenticated serverHello c ∧
    ∀ sizes, (c.readMany sizes).1 ++ (c.readMany sizes).2.unread = [1, 2, 3, 4, 5] := by
  have hfallback :
      (sampleDemuxer.processIncoming .sample sampleSurroundings sampleConn).1.decision ≠
        .fallback := by
    decide +kernel
  have hclosed :
      (sampleDemuxer.processIncoming .sample sampleSurroundings sampleConn).1.decision ≠
        .closed := by
    decide +kernel
  have htail : sampleConn.content.drop (5 + recordLength sampleConn.content) = [1, 2, 3, 4, 5] := by
    decide +kernel
  have hstream := demux_stream .sample sampleDemuxer sampleSurroundings sampleConn
  cases h : (sampleDemuxer.processIncoming .sample sampleSurroundings sampleConn).1 with
  | fallback firstBytes left => exact absurd (congrArg Handling.decision h) hfallback
  | closed => exact absurd (congrArg Handling.decision h) hclosed
  | authenticated serverHello c =>
    refine ⟨serverHello, c, rfl, fun sizes => ?_⟩
    rw [← htail]
    exact (hstream.2.2 serverHello c h).2.1 sizes

end ObsidianVPN.Reality
