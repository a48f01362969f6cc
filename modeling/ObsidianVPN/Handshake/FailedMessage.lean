import ObsidianVPN.Handshake.Wire
import ObsidianVPN.Lib.Runs

/-!
# Messages that fail

`ProcessClientHello` and `ProcessServerHello` store the client's key and the session keys while they
still check the message, so a call that fails later leaves them behind.

* `HelloCall`, `Serving.run`: a sequence of `ProcessClientHello` calls on one handshake, with what the
  last successful call established;
* `Opens`, `Proves`, `Answers`, `SizeDrawn`: the checks on a message, in the order of the source;
* `run_cases`: what one call stores;
* `Authentic`: the handshake holds what the last successful call established;
* **`authentic_iff`**: this is so after every call exactly when every message whose identity opens
  passes all checks or names the key that is stored already; likewise for the session keys of the
  client.
-/

namespace ObsidianVPN.Handshake

open ByteStr GoString Protocol Runs

/-! ## One message -/

section Fields

variable {M : Type} [DecidableEq M] (S : Suite M)

/-- The identity is authenticated and session keys are derived. -/
def ServerHandshake.Derives (s : ServerHandshake M) (hello : ClientHello M) (now : ℤ) (coins : M)
    (o : Opened M) (r : Response M) : Prop :=
  s.authenticate S hello o now = .ok () ∧ s.respond S hello o.shared coins = .ok r

variable {S}

/-- **What the phases store**: nothing before the identity is opened, then the key it names, and the
session keys once they are derived. -/
theorem ServerHandshake.processFields_cases (s : ServerHandshake M) (hello : ClientHello M) (now : ℤ)
    (coins : M) :
    (∃ err, s.openIdentity S hello = .error err ∧
      s.processFields S hello now coins = (s, .error err)) ∨
    (∃ o err, s.openIdentity S hello = .ok o ∧ (∀ r, ¬s.Derives S hello now coins o r) ∧
      s.processFields S hello now coins =
        ({ s with clientStaticPub := o.identity.staticPub }, .error err)) ∨
    ∃ o r, s.openIdentity S hello = .ok o ∧ s.Derives S hello now coins o r ∧
      s.processFields S hello now coins =
        ({ s with
            clientStaticPub := o.identity.staticPub
            sessionKeys := some r.keys
            ephKeypair := zeroKeypair S }, .ok r) := by
  cases hopen : s.openIdentity S hello with
  | error err => exact .inl ⟨err, rfl, by simp only [ServerHandshake.processFields, hopen]⟩
  | ok o =>
    -- the stored key of the client plays no part in the later phases
    have hauth : ({ s with clientStaticPub := o.identity.staticPub } :
        ServerHandshake M).authenticate S hello o now = s.authenticate S hello o now := rfl
    have hresp : ({ s with clientStaticPub := o.identity.staticPub } :
        ServerHandshake M).respond S hello o.shared coins = s.respond S hello o.shared coins := rfl
    unfold ServerHandshake.Derives
    cases ha : s.authenticate S hello o now with
    | error err =>
      exact .inr (.inl ⟨o, err, rfl, by simp [ha],
        by simp only [ServerHandshake.processFields, hopen, hauth, ha]⟩)
    | ok _ =>
      cases hr : s.respond S hello o.shared coins with
      | error err =>
        exact .inr (.inl ⟨o, err, rfl, by simp [hr],
          by simp only [ServerHandshake.processFields, hopen, hauth, ha, hresp, hr]⟩)
      | ok r =>
        exact .inr (.inr ⟨o, r, rfl, ⟨ha, hr⟩,
          by simp only [ServerHandshake.processFields, hopen, hauth, ha, hresp, hr]⟩)

end Fields

/-! ## Sequences of messages to the server -/

section Server

variable (P : Primitives) (cfg : ObfuscationConfig)

/-- One `ProcessClientHello` call: the message, the clock and the random values. -/
structure HelloCall where
  data : Bytes
  now : ℕ
  coins : Bytes
  draws : PadDraws

def HelloCall.run (s : ServerHandshake Bytes) (call : HelloCall) :
    ServerHandshake Bytes × Except String Accepted :=
  processClientHello P cfg s call.data call.now call.coins call.draws

/-- X25519 gives a shared secret, and it is not the all-zero string. -/
def Agree (priv peerPub shared : Bytes) : Prop :=
  P.x25519 priv peerPub = some shared ∧ shared ≠ List.replicate keySize 0

/-- The message is cut into the fields `hello`, its identity decrypts under the temporary keys, and
it carries their magic. -/
structure HelloCall.Opens (s : ServerHandshake Bytes) (call : HelloCall) (hello : ClientHello Bytes)
    (o : Opened Bytes) : Prop where
  parses : parseClientHello call.data = .ok hello
  agree : Agree P s.staticPriv hello.ephPub o.shared
  tmpKeys : o.tmpKeys = P.deriveKeys o.shared hello.salt hello.ephPub s.staticPub
  magic : o.identity.magic = o.tmpKeys.dynamicMagic
  decrypts : ∃ plaintext, P.aeadOpen o.tmpKeys.clientKey (Primitives.nonceAt o.tmpKeys.clientIV 0)
      hello.encIdentity [hello.ephPub, hello.mlkemPub].flatten = some plaintext ∧
    Primitives.splitIdentity plaintext = some o.identity

/-- The timestamp is in the window, the proof is that of the key which the identity names, and the
key is on the allowlist. -/
structure HelloCall.Proves (s : ServerHandshake Bytes) (call : HelloCall) (hello : ClientHello Bytes)
    (o : Opened Bytes) : Prop where
  fresh : abs64 (wrap64 (unix call.now - wrap64 (getBE o.identity.ts))) ≤ replayWindowSec
  proof : ∃ staticShared, Agree P s.staticPriv o.identity.staticPub staticShared ∧
    o.identity.proof = P.hmacSHA256 staticShared
      [o.tmpKeys.dynamicMagic, hello.ephPub, hello.mlkemPub, hello.salt, o.identity.ts].flatten
  allowed : ∀ allowed, s.allowedClients = some allowed → o.identity.staticPub ∈ allowed

/-- The ML-KEM share is a key of the right size, and the X25519 share agrees with the ephemeral
key. -/
structure Answers (s : ServerHandshake Bytes) (hello : ClientHello Bytes) (shared : Bytes) :
    Prop where
  size : hello.mlkemPub.length = mlkemEncapsulationKeySize
  share : P.mlkemParses hello.mlkemPub = true
  agree : Agree P s.ephKeypair.priv hello.ephPub shared

/-- The session keys of the shares. -/
def HelloCall.sessionKeys (s : ServerHandshake Bytes) (call : HelloCall) (hello : ClientHello Bytes)
    (shared : Bytes) : SessionKeys Bytes :=
  P.deriveKeys (P.deriveHybridSecret shared (P.mlkemEncapsulate hello.mlkemPub call.coins).1
    hello.salt) hello.salt hello.ephPub s.ephKeypair.pub

/-- What a successful call establishes: the key that the client has proved to own, and the session
keys. -/
def HelloCall.established (s : ServerHandshake Bytes) (call : HelloCall) :
    Option (Bytes × SessionKeys Bytes) :=
  match (call.run P cfg s).2 with
  | .error _ => none
  | .ok _ =>
    (parseClientHello call.data).toOption.bind fun hello =>
      (s.openIdentity P.suite hello).toOption.bind fun o =>
        (s.respond P.suite hello o.shared call.coins).toOption.map fun r =>
          (o.identity.staticPub, r.keys)

/-- A handshake with what the last successful call has established. -/
structure Serving where
  server : ServerHandshake Bytes
  last : Option (Bytes × SessionKeys Bytes)

def Serving.step (x : Serving) (call : HelloCall) : Serving :=
  ⟨(call.run P cfg x.server).1, (call.established P cfg x.server).or x.last⟩

def Serving.run (x : Serving) (calls : List HelloCall) : Serving := calls.foldl (Serving.step P cfg) x

/-- A handshake as `NewServerHandshakeWithConfig` returns it. -/
def Serving.new (staticPriv staticPub : Bytes) (allowedClients : Option (List Bytes))
    (ephPriv : Bytes) : Serving :=
  ⟨newServerHandshake P staticPriv staticPub allowedClients ephPriv, none⟩

/-- The handshake holds what the last successful call has established, and nothing if there was
none. -/
def Serving.Authentic (x : Serving) : Prop :=
  x.server.clientStaticPub = (x.last.map Prod.fst).getD (List.replicate keySize 0) ∧
    x.server.sessionKeys = x.last.map Prod.snd

/-- A message whose identity opens passes all the other checks, or it names the key that is stored;
in this case, if only the padding is missing, its shares give the session keys that are stored. -/
def HelloCall.Harmless (s : ServerHandshake Bytes) (call : HelloCall) : Prop :=
  ∀ hello o, call.Opens P s hello o →
    (call.Proves P s hello o ∧ (∃ shared, Answers P s hello shared) ∧
      SizeDrawn cfg.s2Min cfg.s2Max call.draws.size) ∨
    o.identity.staticPub = s.clientStaticPub ∧ ∀ shared, call.Proves P s hello o →
      Answers P s hello shared → s.sessionKeys = some (call.sessionKeys P s hello shared)

variable {P cfg}

theorem dhSafe_eq_ok {priv peerPub shared : Bytes} :
    P.suite.dhSafe priv peerPub = .ok shared ↔ Agree P priv peerPub shared := by
  show P.dhSafe priv peerPub = .ok shared ↔ Agree P priv peerPub shared
  unfold Primitives.dhSafe Agree
  cases P.x25519 priv peerPub with
  | none => simp
  | some secret =>
    by_cases hzero : secret = List.replicate keySize 0
    · simp only [if_pos hzero, reduceCtorEq, Option.some.injEq, false_iff, not_and, not_not]
      exact fun heq => heq ▸ hzero
    · simp only [if_neg hzero, Except.ok.injEq, Option.some.injEq]
      exact ⟨fun heq => ⟨heq, heq ▸ hzero⟩, And.left⟩

theorem encapsulateMLKEM_eq_ok {encKey coins : Bytes} {out : Bytes × Bytes} :
    P.suite.encapsulateMLKEM encKey coins = .ok out ↔
      encKey.length = mlkemEncapsulationKeySize ∧ P.mlkemParses encKey = true ∧
        out = P.mlkemEncapsulate encKey coins := by
  show P.encapsulateMLKEM encKey coins = .ok out ↔ _
  unfold Primitives.encapsulateMLKEM
  by_cases hsize : encKey.length = mlkemEncapsulationKeySize
  · by_cases hparse : P.mlkemParses encKey = true
    · simp [hsize, hparse, eq_comm]
    · simp [hsize, hparse]
  · simp [hsize]

theorem decapsulateMLKEM_eq_ok {decKey ciphertext shared : Bytes} :
    P.suite.decapsulateMLKEM decKey ciphertext = .ok shared ↔
      ciphertext.length = mlkemCiphertextSize ∧
        P.mlkemDecapsulate decKey ciphertext = some shared := by
  show P.decapsulateMLKEM decKey ciphertext = .ok shared ↔ _
  unfold Primitives.decapsulateMLKEM
  by_cases hsize : ciphertext.length = mlkemCiphertextSize
  · cases P.mlkemDecapsulate decKey ciphertext <;> simp [hsize]
  · simp [hsize]

theorem randomPadding_isOk_iff {min max : ℤ} {r : PadDraws} :
    (∃ b, randomPadding min max r = .ok b) ↔ SizeDrawn min max r.size := by
  have hmake : ∀ n : ℤ, (∃ b, makeRandom n r.bytes = .ok b) ↔ 0 ≤ n := by
    intro n
    unfold makeRandom
    by_cases hn : n < 0
    · simp [hn]
    · simp [hn, not_lt.mp hn]
  exact sizeDrawn_iff hmake

theorem HelloCall.opens_iff {s : ServerHandshake Bytes} {call : HelloCall}
    {hello : ClientHello Bytes} {o : Opened Bytes} :
    call.Opens P s hello o ↔
      parseClientHello call.data = .ok hello ∧ s.openIdentity P.suite hello = .ok o := by
  rw [openIdentity_ok, dhSafe_eq_ok]
  constructor
  · intro h
    exact ⟨h.parses, h.agree, h.tmpKeys, h.magic, h.decrypts⟩
  · rintro ⟨hparse, hagree, hkeys, hmagic, hdec⟩
    exact ⟨hparse, hagree, hkeys, hmagic, hdec⟩

theorem HelloCall.proves_iff {s : ServerHandshake Bytes} {call : HelloCall}
    {hello : ClientHello Bytes} {o : Opened Bytes} :
    call.Proves P s hello o ↔ s.authenticate P.suite hello o (unix call.now) = .ok () := by
  have htime : P.suite.getTime o.identity.ts = wrap64 (getBE o.identity.ts) := by
    simp only [Primitives.suite]
  simp only [authenticate_ok, dhSafe_eq_ok, htime]
  constructor
  · intro h
    exact ⟨h.fresh, h.proof, h.allowed⟩
  · rintro ⟨hfresh, hproof, hallowed⟩
    exact ⟨hfresh, hproof, hallowed⟩

/-- The answer is computed exactly from shares that pass their checks. -/
theorem HelloCall.answers_iff {s : ServerHandshake Bytes} {call : HelloCall}
    {hello : ClientHello Bytes} {o : Opened Bytes} {keys : SessionKeys Bytes} :
    (∃ r, s.respond P.suite hello o.shared call.coins = .ok r ∧ r.keys = keys) ↔
      ∃ shared, Answers P s hello shared ∧ keys = call.sessionKeys P s hello shared := by
  simp only [respond_ok, dhSafe_eq_ok, encapsulateMLKEM_eq_ok]
  constructor
  · rintro ⟨r, ⟨sharedMLKEM, ciphertext, shared, ⟨hsize, hshare, henc⟩, hagree, rfl⟩, rfl⟩
    refine ⟨shared, ⟨hsize, hshare, hagree⟩, ?_⟩
    rw [HelloCall.sessionKeys, ← henc]
    rfl
  · rintro ⟨shared, ⟨hsize, hshare, hagree⟩, rfl⟩
    exact ⟨_, ⟨_, _, shared, ⟨hsize, hshare, rfl⟩, hagree, rfl⟩, rfl⟩

theorem established_of_error {s : ServerHandshake Bytes} {call : HelloCall} {err : String}
    (h : (call.run P cfg s).2 = .error err) : call.established P cfg s = none := by
  rw [HelloCall.established, h]

theorem established_of_ok {s : ServerHandshake Bytes} {call : HelloCall} {acc : Accepted}
    {hello : ClientHello Bytes} {o : Opened Bytes} {r : Response Bytes}
    (h : (call.run P cfg s).2 = .ok acc) (ho : call.Opens P s hello o)
    (hr : s.Derives P.suite hello (unix call.now) call.coins o r) :
    call.established P cfg s = some (o.identity.staticPub, r.keys) := by
  obtain ⟨hparse, hopen⟩ := HelloCall.opens_iff.mp ho
  rw [HelloCall.established, h, hparse]
  simp [Except.toOption, hopen, hr.2]

variable (P cfg) in
/-- **What one call stores.** -/
theorem run_cases (s : ServerHandshake Bytes) (call : HelloCall) :
    ((∀ hello o, ¬call.Opens P s hello o) ∧ ∃ err, call.run P cfg s = (s, .error err)) ∨
    ∃ hello o, call.Opens P s hello o ∧
      (((∀ r, ¬s.Derives P.suite hello (unix call.now) call.coins o r) ∧ ∃ err, call.run P cfg s =
        ({ s with clientStaticPub := o.identity.staticPub }, .error err)) ∨
      ∃ r, s.Derives P.suite hello (unix call.now) call.coins o r ∧
        (call.run P cfg s).1.clientStaticPub = o.identity.staticPub ∧
        (call.run P cfg s).1.sessionKeys = some r.keys ∧
        ((∃ acc, (call.run P cfg s).2 = .ok acc) ↔
          SizeDrawn cfg.s2Min cfg.s2Max call.draws.size)) := by
  simp only [HelloCall.opens_iff]
  cases hparse : parseClientHello call.data with
  | error err =>
    refine .inl ⟨fun hello o h => ?_, err, ?_⟩
    · cases h.1
    · simp only [HelloCall.run, processClientHello, hparse]
  | ok hello =>
    obtain ⟨err, hopen, hfields⟩ | ⟨o, err, hopen, hno, hfields⟩ | ⟨o, r, hopen, hr, hfields⟩ :=
      s.processFields_cases (S := P.suite) hello (unix call.now) call.coins
    · refine .inl ⟨fun hello' o' h => ?_, err, ?_⟩
      · obtain rfl := Except.ok.inj h.1
        cases hopen.symm.trans h.2
      · simp only [HelloCall.run, processClientHello, hparse, hfields]
    · refine .inr ⟨hello, o, ⟨rfl, hopen⟩, .inl ⟨hno, err, ?_⟩⟩
      simp only [HelloCall.run, processClientHello, hparse, hfields]
    · refine .inr ⟨hello, o, ⟨rfl, hopen⟩, .inr ⟨r, hr, ?_⟩⟩
      rw [← randomPadding_isOk_iff]
      simp only [HelloCall.run, processClientHello, hparse, hfields]
      cases randomPadding cfg.s2Min cfg.s2Max call.draws with
      | error err => exact ⟨rfl, rfl, by simp⟩
      | ok s2 => exact ⟨rfl, rfl, by simp⟩

/-- The checks before the padding pass exactly when session keys are derived. -/
theorem HelloCall.derives_iff {s : ServerHandshake Bytes} {call : HelloCall}
    {hello : ClientHello Bytes} {o : Opened Bytes} {keys : SessionKeys Bytes} :
    (∃ r, s.Derives P.suite hello (unix call.now) call.coins o r ∧ r.keys = keys) ↔
      ∃ shared, call.Proves P s hello o ∧ Answers P s hello shared ∧
        keys = call.sessionKeys P s hello shared := by
  constructor
  · rintro ⟨r, ⟨hauth, hresp⟩, hkeys⟩
    obtain ⟨shared, hanswers, heq⟩ := HelloCall.answers_iff.mp ⟨r, hresp, hkeys⟩
    exact ⟨shared, HelloCall.proves_iff.mpr hauth, hanswers, heq⟩
  · rintro ⟨shared, hproves, hanswers, heq⟩
    obtain ⟨r, hresp, hkeys⟩ := HelloCall.answers_iff.mpr ⟨shared, hanswers, heq⟩
    exact ⟨r, ⟨HelloCall.proves_iff.mp hproves, hresp⟩, hkeys⟩

/-- The message determines its identity. -/
theorem HelloCall.Opens.unique {s : ServerHandshake Bytes} {call : HelloCall}
    {hello hello' : ClientHello Bytes} {o o' : Opened Bytes} (h : call.Opens P s hello o)
    (h' : call.Opens P s hello' o') : hello' = hello ∧ o' = o := by
  rw [HelloCall.opens_iff] at h h'
  obtain rfl := Except.ok.inj (h.1.symm.trans h'.1)
  exact ⟨rfl, (Except.ok.inj (h.2.symm.trans h'.2)).symm⟩

/-- A call leaves an authentic handshake authentic exactly when it is harmless. -/
theorem Serving.authentic_step_iff {x : Serving} (hx : x.Authentic) (call : HelloCall) :
    (x.step P cfg call).Authentic ↔ call.Harmless P cfg x.server := by
  obtain ⟨hkey, hkeys⟩ := hx
  unfold Serving.Authentic Serving.step HelloCall.Harmless
  obtain ⟨hno, err, hrun⟩ | ⟨hello, o, ho, ⟨hno, err, hrun⟩ | ⟨r, hr, hpub, hsess, hpad⟩⟩ :=
    run_cases P cfg x.server call
  · -- nothing is stored
    have hest := established_of_error (congrArg Prod.snd hrun)
    rw [hest, hrun]
    exact iff_of_true ⟨hkey, hkeys⟩ fun hello o h => absurd h (hno hello o)
  · -- the key that the identity names is stored
    have hest := established_of_error (congrArg Prod.snd hrun)
    have hfails : ∀ shared, call.Proves P x.server hello o → ¬Answers P x.server hello shared := by
      intro shared hproves hanswers
      obtain ⟨r, hr, -⟩ := HelloCall.derives_iff.mpr ⟨shared, hproves, hanswers, rfl⟩
      exact hno r hr
    rw [hest, hrun]
    simp only [Option.none_or]
    constructor
    · rintro ⟨hnew, -⟩ hello' o' h'
      obtain ⟨rfl, rfl⟩ := ho.unique h'
      exact .inr ⟨hnew.trans hkey.symm, fun shared hp ha => absurd ha (hfails shared hp)⟩
    · intro h
      rcases h hello o ho with ⟨hproves, ⟨shared, hanswers⟩, -⟩ | ⟨hold, -⟩
      · exact absurd hanswers (hfails shared hproves)
      · exact ⟨hold.trans hkey, hkeys⟩
  · obtain ⟨shared, hproves, hanswers, hrkeys⟩ := HelloCall.derives_iff.mp ⟨r, hr, rfl⟩
    cases hres : (call.run P cfg x.server).2 with
    | ok acc =>
      rw [established_of_ok hres ho hr, hpub, hsess]
      refine iff_of_true ⟨rfl, rfl⟩ fun hello' o' h' => ?_
      obtain ⟨rfl, rfl⟩ := ho.unique h'
      exact .inl ⟨hproves, ⟨shared, hanswers⟩, hpad.mp ⟨acc, hres⟩⟩
    | error err =>
      -- only the padding is missing, and both fields have been set
      have hnopad : ¬SizeDrawn cfg.s2Min cfg.s2Max call.draws.size := by
        intro hdrawn
        obtain ⟨acc, hacc⟩ := hpad.mpr hdrawn
        cases hres.symm.trans hacc
      rw [established_of_error hres, hpub, hsess]
      simp only [Option.none_or]
      constructor
      · rintro ⟨hnew, hold⟩ hello' o' h'
        obtain ⟨rfl, rfl⟩ := ho.unique h'
        refine .inr ⟨hnew.trans hkey.symm, fun shared' hproves' hanswers' => ?_⟩
        obtain ⟨r', hr', hkeys'⟩ :=
          HelloCall.derives_iff.mpr ⟨shared', hproves', hanswers', rfl⟩
        obtain rfl := Except.ok.inj (hr.2.symm.trans hr'.2)
        rw [← hkeys', hkeys, ← hold]
      · intro h
        rcases h hello o ho with ⟨-, -, hdrawn⟩ | ⟨hnew, hold⟩
        · exact absurd hdrawn hnopad
        · refine ⟨hnew.trans hkey, ?_⟩
          rw [hrkeys, ← hold shared hproves hanswers, hkeys]

end Server

/-! ## Messages to the client -/

section Client

variable (P : Primitives) (cfg : ObfuscationConfig)

/-- A failing `ProcessServerHello` leaves the session keys as they were. -/
def KeepsKeys (c : ClientHandshake Bytes) (data : Bytes) : Prop :=
  ∀ err, (processServerHello P cfg c data).2 = .error err →
    (processServerHello P cfg c data).1.sessionKeys = c.sessionKeys

/-- The shares of the message pass their checks and give these session keys. -/
def Derived (c : ClientHandshake Bytes) (hello : ServerHello Bytes) (keys : SessionKeys Bytes) :
    Prop :=
  ∃ sharedX25519 sharedMLKEM, Agree P c.ephemeralKeypair.priv hello.ephPub sharedX25519 ∧
    (hello.mlkemCiphertext.length = mlkemCiphertextSize ∧
      P.mlkemDecapsulate c.mlkemDecKey hello.mlkemCiphertext = some sharedMLKEM) ∧
    keys = P.deriveKeys (P.deriveHybridSecret sharedX25519 sharedMLKEM c.salt) c.salt
      c.ephemeralKeypair.pub hello.ephPub

/-- The confirmation decrypts, with the magic and the session ID of the keys and the proof of the
server. -/
def Confirmed (c : ClientHandshake Bytes) (hello : ServerHello Bytes) (keys : SessionKeys Bytes) :
    Prop :=
  ∃ plaintext confirm staticShared,
    P.aeadOpen keys.serverKey (Primitives.nonceAt keys.serverIV 0) hello.encConfirm
      [hello.ephPub, hello.mlkemCiphertext].flatten = some plaintext ∧
    Primitives.splitConfirm plaintext = some confirm ∧ confirm.magic = keys.dynamicMagic ∧
    confirm.sessionID = keys.sessionID ∧
    Agree P c.ephemeralKeypair.priv c.serverStaticPub staticShared ∧
    confirm.proof = P.hmacSHA256 staticShared [ascii "obsidian_server_auth_v1",
      c.ephemeralKeypair.pub, c.salt, hello.ephPub, keys.sessionID].flatten

/-- Session keys that the shares of the message give are confirmed by it, or they are those that are
stored. -/
def HarmlessReply (c : ClientHandshake Bytes) (data : Bytes) : Prop :=
  ∀ hello keys, parseServerHello data = .ok hello → Derived P c hello keys →
    Confirmed P c hello keys ∨ c.sessionKeys = some keys

variable {P cfg}

theorem derived_iff {c : ClientHandshake Bytes} {hello : ServerHello Bytes}
    {keys : SessionKeys Bytes} :
    Derived P c hello keys ↔ c.deriveSession P.suite hello = .ok keys := by
  simp only [deriveSession_ok, dhSafe_eq_ok, decapsulateMLKEM_eq_ok]
  rfl

theorem confirmed_iff {c : ClientHandshake Bytes} {hello : ServerHello Bytes}
    {keys : SessionKeys Bytes} :
    Confirmed P c hello keys ↔ c.checkConfirm P.suite hello keys = .ok () := by
  simp only [checkConfirm_ok, dhSafe_eq_ok]
  rfl

theorem ClientHandshake.processFields_cases {M : Type} [DecidableEq M] {S : Suite M}
    (c : ClientHandshake M) (hello : ServerHello M) :
    (∃ err, c.deriveSession S hello = .error err ∧ c.processFields S hello = (c, .error err)) ∨
    ∃ keys, c.deriveSession S hello = .ok keys ∧
      (c.checkConfirm S hello keys = .ok () ∧ (∃ c' k, c.processFields S hello = (c', .ok k)) ∨
      ∃ err, c.checkConfirm S hello keys = .error err ∧
        c.processFields S hello = ({ c with sessionKeys := some keys }, .error err)) := by
  cases hder : c.deriveSession S hello with
  | error err => exact .inl ⟨err, rfl, by simp only [ClientHandshake.processFields, hder]⟩
  | ok keys =>
    have hcheck : ({ c with sessionKeys := some keys } : ClientHandshake M).checkConfirm S hello
        keys = c.checkConfirm S hello keys := rfl
    refine .inr ⟨keys, rfl, ?_⟩
    cases hc : c.checkConfirm S hello keys with
    | error err =>
      exact .inr ⟨err, rfl, by simp only [ClientHandshake.processFields, hder, hcheck, hc]⟩
    | ok _ =>
      simp only [ClientHandshake.processFields, hder, hcheck, hc]
      exact .inl ⟨trivial, _, _, rfl⟩

theorem keepsKeys_iff (c : ClientHandshake Bytes) (data : Bytes) :
    KeepsKeys P cfg c data ↔ HarmlessReply P c data := by
  unfold KeepsKeys HarmlessReply processServerHello
  simp only [derived_iff, confirmed_iff]
  cases parseServerHello data with
  | error err => simp
  | ok hello =>
    simp only [Except.ok.injEq]
    obtain ⟨err, hder, hfields⟩ | ⟨keys, hder, ⟨hc, c', k, hfields⟩ | ⟨err, hc, hfields⟩⟩ :=
      c.processFields_cases (S := P.suite) hello
    · rw [hfields]
      refine iff_of_true (fun _ _ => rfl) ?_
      rintro _ keys rfl hkeys
      cases hder.symm.trans hkeys
    · rw [hfields]
      refine iff_of_true (fun _ h => by cases h) ?_
      rintro _ keys' rfl hkeys
      obtain rfl := Except.ok.inj (hder.symm.trans hkeys)
      exact .inl hc
    · rw [hfields]
      constructor
      · rintro h _ keys' rfl hkeys
        obtain rfl := Except.ok.inj (hder.symm.trans hkeys)
        exact .inr (h err rfl).symm
      · intro h _ _
        obtain hok | hold := h hello keys rfl hder
        · cases hc.symm.trans hok
        · exact hold.symm

end Client

/-- **A failing message changes no authenticated state** exactly when every ClientHello whose identity
opens passes the checks on timestamp, proof, allowlist, shares and padding, or names the stored key
(and, if only the padding is missing, its shares give the stored session keys), and the session keys
that the shares of a ServerHello give are confirmed by it or stored already. -/
theorem authentic_iff (P : Primitives) (cfg : ObfuscationConfig) (staticPriv staticPub : Bytes)
    (allowedClients : Option (List Bytes)) (ephPriv : Bytes) (calls : List HelloCall) :
    (Throughout (fun pre =>
        ((Serving.new P staticPriv staticPub allowedClients ephPriv).run P cfg pre).Authentic) calls ↔
      EachStep (fun pre call => call.Harmless P cfg
        ((Serving.new P staticPriv staticPub allowedClients ephPriv).run P cfg pre).server) calls) ∧
    ∀ (c : ClientHandshake Bytes) (data : Bytes),
      KeepsKeys P cfg c data ↔ HarmlessReply P c data := by
  refine ⟨?_, fun c data => keepsKeys_iff c data⟩
  have hstep : ∀ pre call,
      (Serving.new P staticPriv staticPub allowedClients ephPriv).run P cfg (pre ++ [call]) =
        ((Serving.new P staticPriv staticPub allowedClients ephPriv).run P cfg pre).step P cfg
          call := by
    intro pre call
    rw [Serving.run, List.foldl_append]
    rfl
  refine throughout_iff_eachStep ⟨rfl, rfl⟩ (fun pre call _ hinv hc => ?_) (fun _ _ h => h)
    (fun pre call _ hinv hc => ?_)
  · rw [hstep]
    exact (Serving.authentic_step_iff hinv call).2 hc
  · rw [hstep]
    exact fun h => hc ((Serving.authentic_step_iff hinv call).1 h)

/-- A ClientHello for the server key `1`, built at second 1000 by the client with the key `2` and
received at second 5000. -/
def staleCall : HelloCall :=
  let key (b : UInt8) : Bytes := List.replicate keySize b
  let c := newClientHandshake .sample (key 1) (newKeypair .sample (key 2)) (key 3) [4]
    (List.replicate 32 5)
  match buildHello .sample defaultObfuscationConfig c (1000 * second)
    ⟨0, fun _ => 0, 0, fun _ => 0⟩ with
  | .ok (hello, _) => ⟨hello, 5000 * second, key 7, ⟨0, fun _ => 0, 0, fun _ => 0⟩⟩
  | .error _ => ⟨[], 0, [], ⟨0, fun _ => 0, 0, fun _ => 0⟩⟩

/-- A fresh handshake of the server with the key `1`. -/
def sampleServing : Serving :=
  .new .sample (List.replicate keySize 1) (List.replicate keySize 1) none (List.replicate keySize 6)

/-- The stale hello is refused, and its key stays behind. -/
theorem stale_key_stays :
    (staleCall.run .sample defaultObfuscationConfig sampleServing.server).2.toBool = false ∧
    (sampleServing.run .sample defaultObfuscationConfig [staleCall]).server.clientStaticPub =
      List.replicate keySize 2 ∧
    ¬Throughout (fun pre => (sampleServing.run .sample defaultObfuscationConfig pre).Authentic)
      [staleCall] := by
  have hkey : (sampleServing.run .sample defaultObfuscationConfig [staleCall]).server.clientStaticPub =
      List.replicate keySize 2 := by
    decide +kernel
  have hlast : (sampleServing.run .sample defaultObfuscationConfig [staleCall]).last = none := by
    decide +kernel
  refine ⟨by decide +kernel, hkey, fun h => ?_⟩
  have hzero := (h [staleCall] (List.prefix_refl _)).1
  rw [hkey, hlast] at hzero
  revert hzero
  decide

end ObsidianVPN.Handshake
