import ObsidianVPN.Crypto.Primitives
import ObsidianVPN.Lib.ExpiryCache

/-!
# REALITY tokens

A token is a 32-byte TLS session id: a nonce, a Unix time and a truncated HMAC that also covers
the SNI. `processIncoming` admits a connection whose token is authentic, fresh and not in the
replay cache.

* `verifySessionID`, `seenOrAdd`, `processIncoming`: the checks of one connection;
* `passed`: the connections of a sequence that get through;
* `Genuine`: what `processIncoming` asks of a connection before it looks into the cache;
* **`map_passed`**: the connections that get through are the genuine ones the cache admits;
* **`passed_le_one_iff`**: a token is honoured at most once exactly when no two genuine
  presentations of it reach the cache 60 seconds or more apart. The acceptance interval of
  `verifySessionID` is 61 seconds long, so there are such presentations.
-/

namespace ObsidianVPN.Reality

open ByteStr GoString ExpiryCache

def tlsSessionIDSize : ℕ := 32
def authNonceSize : ℕ := 16
def authTimestampSize : ℕ := 8
def authTagSize : ℕ := 8
def defaultAuthWindowSec : ℤ := 30

/-- Sixty seconds, as a Go duration. -/
def defaultReplayTTL : ℤ := 60 * second

/-! ## Tokens -/

/-- The byte-wise lower case of `computeAuthTag`. -/
def asciiLower (s : Bytes) : Bytes := s.map fun c => if 0x41 ≤ c ∧ c ≤ 0x5a then c + 0x20 else c

def computeAuthTag (P : Primitives) (authKey nonceAndTS sni : Bytes) : Bytes :=
  P.hmacSHA256 authKey
    (ascii "obsidian_reality_v3_session_id" ++ nonceAndTS ++ asciiLower (trimSpace sni))

/-- `GenerateSessionIDWithTimestamp`, with the random nonce as an argument. -/
def generateSessionIDWithTimestamp (P : Primitives) (authKey sni nonce : Bytes) (ts : ℤ) : Bytes :=
  let nonceAndTS := nonce ++ putBE authTimestampSize (ts % 2 ^ 64).toNat
  nonceAndTS ++ (computeAuthTag P authKey nonceAndTS sni).take authTagSize

/-- The timestamp field, as an `int64`. -/
def tokenTime (sessionID : Bytes) : ℤ :=
  wrap64 (getBE (slice sessionID authNonceSize authTimestampSize))

/-- `VerifySessionID`, with the reading of the clock as an argument. -/
def verifySessionID (P : Primitives) (sessionID sni authKey : Bytes) (windowSec : ℤ) (now : ℕ) :
    Bool :=
  if sessionID.length ≠ tlsSessionIDSize then false
  else if authKey.length = 0 then false
  else
    let windowSec := if windowSec ≤ 0 then defaultAuthWindowSec else windowSec
    let diff := wrap64 (unix now - tokenTime sessionID)
    if diff < -windowSec ∨ diff > windowSec then false
    else
      let nonceAndTS := sessionID.take (authNonceSize + authTimestampSize)
      let expectedTag := computeAuthTag P authKey nonceAndTS sni
      decide (sessionID.drop (authNonceSize + authTimestampSize) = expectedTag.take authTagSize)

/-! ## The replay cache and the demultiplexer -/

def newRealityReplayCache (ttl : ℤ) : Cache Bytes :=
  let ttl := if ttl ≤ 0 then defaultReplayTTL else ttl
  Cache.new ttl.toNat 8192

/-- `SeenOrAdd`. -/
def seenOrAdd (c : Cache Bytes) (sessionID : Bytes) (now : ℕ) : Bool × Cache Bytes :=
  if sessionID.length ≠ tlsSessionIDSize then (false, c) else c.seenOrAdd sessionID now

structure RealityDemuxConfig where
  serverNames : List Bytes
  authKey : Bytes
  replayTTL : ℤ

structure RealityDemuxer where
  cfg : RealityDemuxConfig
  replayCache : Cache Bytes
  serverNames : List Bytes

def cleanName (P : Primitives) (name : Bytes) : Bytes := P.toLower (trimSpace name)

def newRealityDemuxer (P : Primitives) (cfg : RealityDemuxConfig) : RealityDemuxer :=
  let cfg := { cfg with
    replayTTL := if cfg.replayTTL ≤ 0 then defaultReplayTTL else cfg.replayTTL }
  { cfg := cfg
    replayCache := newRealityReplayCache cfg.replayTTL
    serverNames := cfg.serverNames.map (cleanName P) }

/-- A connection that has sent a TLS ClientHello: its session id, its SNI, and the two readings
of the clock that `VerifySessionID` and `SeenOrAdd` make, in nanoseconds. -/
structure Connection where
  sessionID : Bytes
  sni : Bytes
  verifyNow : ℕ
  seenNow : ℕ
  deriving DecidableEq

/-- Where `processIncoming` leaves a connection. -/
inductive Verdict where
  | wrongName
  | unauthenticated
  | replayed
  | passed
  deriving DecidableEq, Repr

/-- `processIncoming` from the parsed ClientHello on. -/
def processIncoming (P : Primitives) (d : RealityDemuxer) (conn : Connection) :
    Verdict × RealityDemuxer :=
  if d.serverNames.length > 0 ∧ cleanName P conn.sni ∉ d.serverNames then (.wrongName, d)
  else if ¬verifySessionID P conn.sessionID conn.sni d.cfg.authKey defaultAuthWindowSec
      conn.verifyNow then (.unauthenticated, d)
  else
    let r := seenOrAdd d.replayCache conn.sessionID conn.seenNow
    (if r.1 then .replayed else .passed, { d with replayCache := r.2 })

/-- The connections that pass, when they are handled one after the other. -/
def passed (P : Primitives) (d : RealityDemuxer) : List Connection → List Connection
  | [] => []
  | conn :: conns =>
    let r := processIncoming P d conn
    if r.1 = .passed then conn :: passed P r.2 conns else passed P r.2 conns

/-! ## What the cache sees -/

/-- A connection with a permitted name and an authentic token, whose timestamp is at most 30
seconds off the server's clock. -/
def Genuine (P : Primitives) (serverNames : List Bytes) (authKey : Bytes) (conn : Connection) :
    Prop :=
  (serverNames = [] ∨ cleanName P conn.sni ∈ serverNames.map (cleanName P)) ∧
  conn.sessionID.length = tlsSessionIDSize ∧ authKey ≠ [] ∧
  (-30 ≤ wrap64 (unix conn.verifyNow - tokenTime conn.sessionID) ∧
    wrap64 (unix conn.verifyNow - tokenTime conn.sessionID) ≤ 30) ∧
  conn.sessionID.drop 24 = (computeAuthTag P authKey (conn.sessionID.take 24) conn.sni).take 8

instance (P : Primitives) (serverNames : List Bytes) (authKey : Bytes) :
    DecidablePred (Genuine P serverNames authKey) := fun _ => by
  unfold Genuine; infer_instance

/-- The test of `VerifySessionID` for the timestamp. -/
def tokenFresh (ts now windowSec : ℤ) : Bool :=
  let windowSec := if windowSec ≤ 0 then defaultAuthWindowSec else windowSec
  let diff := wrap64 (now - ts)
  !decide (diff < -windowSec ∨ diff > windowSec)

theorem verifySessionID_iff_fresh (P : Primitives) (sessionID sni authKey : Bytes) (windowSec : ℤ)
    (now : ℕ) :
    verifySessionID P sessionID sni authKey windowSec now = true ↔
      sessionID.length = tlsSessionIDSize ∧ authKey ≠ [] ∧
      tokenFresh (tokenTime sessionID) (unix now) windowSec = true ∧
      sessionID.drop 24 = (computeAuthTag P authKey (sessionID.take 24) sni).take 8 := by
  unfold verifySessionID tokenFresh
  by_cases hlen : sessionID.length = tlsSessionIDSize
  · by_cases hkey : authKey = []
    · simp [hkey]
    · simp only [hlen, ne_eq, not_true_eq_false, List.length_eq_zero_iff, hkey, if_false,
        not_false_eq_true, true_and, Bool.not_eq_true', decide_eq_false_iff_not]
      generalize (if windowSec ≤ 0 then defaultAuthWindowSec else windowSec) = w
      split
      · rename_i hout
        exact iff_of_false (by simp) fun h => h.1 hout
      · rename_i hin
        rw [and_iff_right hin]
        exact decide_eq_true_iff
  · simp [hlen]

theorem verifySessionID_iff (P : Primitives) (sessionID sni authKey : Bytes) (now : ℕ) :
    verifySessionID P sessionID sni authKey defaultAuthWindowSec now = true ↔
      sessionID.length = tlsSessionIDSize ∧ authKey ≠ [] ∧
      (-30 ≤ wrap64 (unix now - tokenTime sessionID) ∧
        wrap64 (unix now - tokenTime sessionID) ≤ 30) ∧
      sessionID.drop 24 = (computeAuthTag P authKey (sessionID.take 24) sni).take 8 := by
  have hfresh : tokenFresh (tokenTime sessionID) (unix now) defaultAuthWindowSec = true ↔
      -30 ≤ wrap64 (unix now - tokenTime sessionID) ∧
        wrap64 (unix now - tokenTime sessionID) ≤ 30 := by
    simp [tokenFresh, defaultAuthWindowSec]
  rw [verifySessionID_iff_fresh, hfresh]

/-- A connection that is not genuine is turned away and leaves the cache alone; a genuine one is
decided by the cache. -/
theorem processIncoming_eq (P : Primitives) (serverNames : List Bytes) (d : RealityDemuxer)
    (hd : d.serverNames = serverNames.map (cleanName P)) (conn : Connection) :
    (¬Genuine P serverNames d.cfg.authKey conn ∧
      (processIncoming P d conn).1 ≠ .passed ∧ (processIncoming P d conn).2 = d) ∨
    (Genuine P serverNames d.cfg.authKey conn ∧
      processIncoming P d conn =
        (if (d.replayCache.seenOrAdd conn.sessionID conn.seenNow).1 then .replayed else .passed,
          { d with replayCache := (d.replayCache.seenOrAdd conn.sessionID conn.seenNow).2 })) := by
  have hname : (d.serverNames.length > 0 ∧ cleanName P conn.sni ∉ d.serverNames) ↔
      ¬(serverNames = [] ∨ cleanName P conn.sni ∈ serverNames.map (cleanName P)) := by
    rw [hd, List.length_map, gt_iff_lt, List.length_pos_iff, not_or]
  have hverify := verifySessionID_iff P conn.sessionID conn.sni d.cfg.authKey conn.verifyNow
  unfold processIncoming
  by_cases hn : d.serverNames.length > 0 ∧ cleanName P conn.sni ∉ d.serverNames
  · exact .inl ⟨fun hg => hname.mp hn hg.1, by simp [hn]⟩
  by_cases hv : verifySessionID P conn.sessionID conn.sni d.cfg.authKey defaultAuthWindowSec
      conn.verifyNow = true
  · have hg := hverify.mp hv
    refine .inr ⟨⟨not_not.mp (hname.not.mp hn), hg⟩, ?_⟩
    simp only [if_neg hn, hv, not_true_eq_false, if_false, seenOrAdd, hg.1, ne_eq]
  · exact .inl ⟨fun hg => hv (hverify.mpr hg.2), by simp [hn, hv]⟩

/-- **The connections that get through are the genuine ones the cache admits.** -/
theorem map_passed (P : Primitives) (serverNames : List Bytes) (d : RealityDemuxer)
    (hd : d.serverNames = serverNames.map (cleanName P)) (conns : List Connection) :
    (passed P d conns).map (fun c => (c.sessionID, c.seenNow)) =
      admittedCalls d.replayCache
        ((conns.filter fun c => decide (Genuine P serverNames d.cfg.authKey c)).map
          fun c => (c.sessionID, c.seenNow)) := by
  induction conns generalizing d with
  | nil => rfl
  | cons conn conns ih =>
    rw [passed]
    rcases processIncoming_eq P serverNames d hd conn with ⟨hg, hp, hsame⟩ | ⟨hg, heq⟩
    · simp only [hp, if_false, hsame, ih d hd, List.filter_cons, hg, decide_false,
        Bool.false_eq_true]
    · simp only [heq, List.filter_cons, hg, decide_true, if_true, List.map_cons, admittedCalls]
      have hrest := ih { d with
        replayCache := (d.replayCache.seenOrAdd conn.sessionID conn.seenNow).2 } hd
      cases (d.replayCache.seenOrAdd conn.sessionID conn.seenNow).1 with
      | true => simpa using hrest
      | false => simpa using hrest

/-! ## At most one connection per token -/

theorem timesOf_map_filter (sid : Bytes) (l : List Connection) :
    timesOf sid (l.map fun c => (c.sessionID, c.seenNow)) =
      (l.filter fun c => decide (c.sessionID = sid)).map Connection.seenNow := by
  simp only [timesOf, List.filter_map, List.map_map]
  rfl

/-- **A token is honoured at most once exactly when no two genuine presentations of it reach the
replay cache 60 seconds or more apart**, on a clock that does not run backwards. -/
theorem passed_le_one_iff (P : Primitives) (cfg : RealityDemuxConfig)
    (httl : cfg.replayTTL = defaultReplayTTL) (conns : List Connection)
    (hclock : (conns.map Connection.seenNow).Pairwise (· ≤ ·)) (sid : Bytes) :
    ((passed P (newRealityDemuxer P cfg) conns).filter
        fun c => decide (c.sessionID = sid)).length ≤ 1 ↔
      (conns.filter fun c => decide (Genuine P cfg.serverNames cfg.authKey c ∧
        c.sessionID = sid)).Pairwise fun a b => b.seenNow < a.seenNow + 60 * second := by
  set genuine := conns.filter fun c => decide (Genuine P cfg.serverNames cfg.authKey c) with hgen
  have hsorted : (genuine.map Connection.seenNow).Pairwise (· ≤ ·) :=
    hclock.sublist (List.filter_sublist.map _)
  have hcache : (newRealityDemuxer P cfg).replayCache = Cache.new (60 * second) 8192 := by
    simp only [newRealityDemuxer, newRealityReplayCache, httl]
    rfl
  -- the calls the cache sees, and those of them it admits
  have hmap : (passed P (newRealityDemuxer P cfg) conns).map (fun c => (c.sessionID, c.seenNow)) =
      admittedCalls (Cache.new (60 * second) 8192)
        (genuine.map fun c => (c.sessionID, c.seenNow)) :=
    hcache ▸ map_passed P cfg.serverNames (newRealityDemuxer P cfg) rfl conns
  have hkey := admittedCalls_key sid (genuine.map fun c => (c.sessionID, c.seenNow))
    (sim_new (60 * second) 8192) (by
      rw [List.map_map]
      exact List.pairwise_cons.mpr ⟨fun _ _ => Nat.zero_le _, hsorted⟩)
  rw [← hmap, timesOf_map_filter, timesOf_map_filter] at hkey
  have hiff := admittedTimes_length_le_one_iff (60 * second)
    ((genuine.filter fun c => decide (c.sessionID = sid)).map Connection.seenNow)
    (hsorted.sublist (List.filter_sublist.map _))
  rw [← show _ = admittedTimes (60 * second) none _ from hkey, List.length_map,
    List.pairwise_map, hgen, List.filter_filter] at hiff
  simpa only [Bool.decide_and, Bool.and_comm] using hiff

/-! ## A token honoured twice -/

section Replay

/-- A demultiplexer without a list of names. -/
def sampleConfig : RealityDemuxConfig := ⟨[], ascii "key", defaultReplayTTL⟩

/-- A token stamped with the Unix time 100. -/
def sampleToken : Bytes :=
  generateSessionIDWithTimestamp .sample (ascii "key") (ascii "a.b") (List.replicate 16 7) 100

/-- The token presented at an instant given in seconds. -/
def presentedAt (s : ℕ) : Connection := ⟨sampleToken, ascii "a.b", s * second, s * second⟩

/-- Presented 30 seconds before its timestamp and again 30 seconds after it, the token passes
both times: the entry expires at the instant of the second look-up. -/
theorem passed_twice :
    ((passed .sample (newRealityDemuxer .sample sampleConfig) [presentedAt 70, presentedAt 130]).filter
      fun c => decide (c.sessionID = sampleToken)).length = 2 := by
  decide +kernel

theorem passed_once_within_ttl :
    ((passed .sample (newRealityDemuxer .sample sampleConfig) [presentedAt 70, presentedAt 129]).filter
      fun c => decide (c.sessionID = sampleToken)).length ≤ 1 :=
  (passed_le_one_iff .sample sampleConfig rfl [presentedAt 70, presentedAt 129] (by decide +kernel)
    sampleToken).mpr (by decide +kernel)

end Replay

end ObsidianVPN.Reality
