import ObsidianVPN.Crypto.Suite

/-!
# The handshake between parsing and printing

`BuildHello`, `ProcessClientHello` and `ProcessServerHello` on the fields of the messages, over any
suite of operations. What surrounds the fields on the wire (lengths and padding) is in
`Handshake.Wire`.

* `ClientHandshake.buildIdentity`: the fields of a ClientHello;
* `ServerHandshake.openIdentity`, `authenticate`, `respond`: the three phases of
  `ProcessClientHello`, put together in `ServerHandshake.processFields`;
* `ClientHandshake.deriveSession`, `checkConfirm`: the two phases of `ProcessServerHello`, put
  together in `ClientHandshake.processFields`;
* `buildIdentity_ok`, `openIdentity_ok`, `authenticate_ok`, `respond_ok`, `deriveSession_ok`,
  `checkConfirm_ok`: what a phase that succeeds has computed and checked.
-/

namespace ObsidianVPN.Handshake

variable {M : Type}

def replayWindowSec : ℤ := 30

/-- The fields of a ClientHello: the authenticated core of the message. -/
structure ClientHello (M : Type) where
  ephPub : M
  mlkemPub : M
  salt : M
  encIdentity : M
  deriving DecidableEq, Repr

/-- The fields of a ServerHello. -/
structure ServerHello (M : Type) where
  ephPub : M
  mlkemCiphertext : M
  encConfirm : M
  deriving DecidableEq, Repr

/-- What a handshake puts into its framer. -/
structure FramerKeys (M : Type) where
  enc : Cipher M
  dec : Cipher M
  encHeaderKey : M
  decHeaderKey : M
  deriving DecidableEq, Repr

structure ClientHandshake (M : Type) where
  serverStaticPub : M
  ephemeralKeypair : Keypair M
  mlkemDecKey : M
  mlkemEncPub : M
  staticKeypair : Keypair M
  salt : M
  sessionKeys : Option (SessionKeys M)
  deriving DecidableEq, Repr

structure ServerHandshake (M : Type) where
  staticPriv : M
  staticPub : M
  ephKeypair : Keypair M
  allowedClients : Option (List M)
  clientStaticPub : M
  sessionKeys : Option (SessionKeys M)
  deriving DecidableEq, Repr

/-- What `Keypair.Zero` leaves of a key pair. -/
def zeroKeypair (S : Suite M) : Keypair M := ⟨S.zeroKey, S.zeroKey⟩

/-- `fmt.Errorf` with a message in front of the error it wraps. -/
def wrapError {α : Type} (message : String) (x : Except String α) : Except String α :=
  match x with
  | .ok a => .ok a
  | .error err => .error s!"{message}: {err}"

/-! ## Transcripts -/

section Transcripts

variable (S : Suite M)

/-- What the client proves with its static key. -/
def clientProof (staticShared dynamicMagic ephPub mlkemPub salt ts : M) : M :=
  S.hmacSHA256 staticShared (S.cat [dynamicMagic, ephPub, mlkemPub, salt, ts])

def serverStaticProof (staticShared clientEph salt serverEph sessionID : M) : M :=
  S.hmacSHA256 staticShared (S.cat [S.serverAuthLabel, clientEph, salt, serverEph, sessionID])

end Transcripts

/-! ## Client: `BuildHello` -/

/-- The fields of the ClientHello, and the cipher that sealed the identity. -/
def ClientHandshake.buildIdentity (S : Suite M) (c : ClientHandshake M) (now : ℤ) :
    Except String (ClientHello M × Cipher M) := do
  let shared ← S.dhSafe c.ephemeralKeypair.priv c.serverStaticPub
  let tmpKeys := S.deriveKeys shared c.salt c.ephemeralKeypair.pub c.serverStaticPub
  let tmpCipher := newCipher tmpKeys.clientKey tmpKeys.clientIV
  let ts := S.putTime now
  let staticShared ← S.dhSafe c.staticKeypair.priv c.serverStaticPub
  let proof := clientProof S staticShared tmpKeys.dynamicMagic c.ephemeralKeypair.pub c.mlkemEncPub
    c.salt ts
  let identity := S.cat [tmpKeys.dynamicMagic, c.staticKeypair.pub, ts, proof]
  let identityAAD := S.cat [c.ephemeralKeypair.pub, c.mlkemEncPub]
  let encIdentity := tmpCipher.encrypt S identity identityAAD
  return (⟨c.ephemeralKeypair.pub, c.mlkemEncPub, c.salt, encIdentity.1⟩, encIdentity.2)

/-! ## Server: `ProcessClientHello` -/

section Server

variable [DecidableEq M] (S : Suite M)

/-- What the server has after it has opened the identity. -/
structure Opened (M : Type) where
  shared : M
  tmpKeys : SessionKeys M
  identity : Identity M

/-- The server decrypts the identity and checks the magic. -/
def ServerHandshake.openIdentity (s : ServerHandshake M) (hello : ClientHello M) :
    Except String (Opened M) := do
  let shared ← S.dhSafe s.staticPriv hello.ephPub
  let tmpKeys := S.deriveKeys shared hello.salt hello.ephPub s.staticPub
  let tmpCipher := newCipher tmpKeys.clientKey tmpKeys.clientIV
  let identityAAD := S.cat [hello.ephPub, hello.mlkemPub]
  match (tmpCipher.decrypt S hello.encIdentity identityAAD).1 with
  | none => .error "identity decrypt failed: chacha20poly1305: message authentication failed"
  | some plaintext =>
    match S.splitIdentity plaintext with
    | none => .error "identity too short"
    | some identity =>
      if identity.magic ≠ tmpKeys.dynamicMagic then
        .error "invalid dynamic magic — rejecting connection"
      else return ⟨shared, tmpKeys, identity⟩

/-- The server checks the timestamp, the client's proof and the allowlist. -/
def ServerHandshake.authenticate (s : ServerHandshake M) (hello : ClientHello M) (o : Opened M)
    (now : ℤ) : Except String Unit := do
  let delta := ByteStr.abs64 (ByteStr.wrap64 (now - S.getTime o.identity.ts))
  if delta > replayWindowSec then .error s!"replay/clock skew: delta={delta}s"
  else
    let staticShared ← S.dhSafe s.staticPriv o.identity.staticPub
    let expectedProof := clientProof S staticShared o.tmpKeys.dynamicMagic hello.ephPub
      hello.mlkemPub hello.salt o.identity.ts
    if o.identity.proof ≠ expectedProof then .error "invalid client static proof"
    else
      match s.allowedClients with
      | none => return ()
      | some allowed =>
        if o.identity.staticPub ∈ allowed then return ()
        else .error "client public key not in allowlist"

/-- The server's answer: the session keys, the fields of the ServerHello, the cipher that sealed the
confirmation, and the keys of the framer. -/
structure Response (M : Type) where
  keys : SessionKeys M
  hello : ServerHello M
  confirmCipher : Cipher M
  framer : FramerKeys M

/-- The server encapsulates, derives the session keys and seals the confirmation. The framer gets a
second cipher with the same key and IV. -/
def ServerHandshake.respond (s : ServerHandshake M) (hello : ClientHello M) (shared coins : M) :
    Except String (Response M) := do
  let encapsulated ← wrapError "ml-kem encapsulate failed" (S.encapsulateMLKEM hello.mlkemPub coins)
  let (sharedMLKEM, ciphertext) := encapsulated
  let sharedFinal ← S.dhSafe s.ephKeypair.priv hello.ephPub
  let hybridSecret := S.deriveHybridSecret sharedFinal sharedMLKEM hello.salt
  let keys := S.deriveKeys hybridSecret hello.salt hello.ephPub s.ephKeypair.pub
  let srvEnc := newCipher keys.serverKey keys.serverIV
  let serverProof := serverStaticProof S shared hello.ephPub hello.salt s.ephKeypair.pub
    keys.sessionID
  let confirmPlain := S.cat [keys.dynamicMagic, keys.sessionID, serverProof]
  let confirmAAD := S.cat [s.ephKeypair.pub, ciphertext]
  let encConfirm := srvEnc.encrypt S confirmPlain confirmAAD
  let cliDec := newCipher keys.clientKey keys.clientIV
  let srvEnc2 := newCipher keys.serverKey keys.serverIV
  let (clientHeaderKey, serverHeaderKey) := S.deriveTCPHeaderKeys keys
  return ⟨keys, ⟨s.ephKeypair.pub, ciphertext, encConfirm.1⟩, encConfirm.2,
    ⟨srvEnc2, cliDec, serverHeaderKey, clientHeaderKey⟩⟩

/-- `ProcessClientHello` on the fields. The client's key is stored before it is authenticated. -/
def ServerHandshake.processFields (s : ServerHandshake M) (hello : ClientHello M) (now : ℤ)
    (coins : M) : ServerHandshake M × Except String (Response M) :=
  match s.openIdentity S hello with
  | .error err => (s, .error err)
  | .ok o =>
    let s := { s with clientStaticPub := o.identity.staticPub }
    match s.authenticate S hello o now with
    | .error err => (s, .error err)
    | .ok () =>
      match s.respond S hello o.shared coins with
      | .error err => (s, .error err)
      | .ok r =>
        ({ s with sessionKeys := some r.keys, ephKeypair := zeroKeypair S }, .ok r)

end Server

/-! ## Client: `ProcessServerHello` -/

section Client

variable [DecidableEq M] (S : Suite M)

/-- The client derives the session keys from the server's answer. -/
def ClientHandshake.deriveSession (c : ClientHandshake M) (hello : ServerHello M) :
    Except String (SessionKeys M) := do
  let sharedX25519 ← S.dhSafe c.ephemeralKeypair.priv hello.ephPub
  let sharedMLKEM ← wrapError "ml-kem decapsulate failed"
    (S.decapsulateMLKEM c.mlkemDecKey hello.mlkemCiphertext)
  let hybridSecret := S.deriveHybridSecret sharedX25519 sharedMLKEM c.salt
  return S.deriveKeys hybridSecret c.salt c.ephemeralKeypair.pub hello.ephPub

/-- The client opens the confirmation and checks the magic, the session id and the server's proof. -/
def ClientHandshake.checkConfirm (c : ClientHandshake M) (hello : ServerHello M)
    (keys : SessionKeys M) : Except String Unit := do
  let srvCipher := newCipher keys.serverKey keys.serverIV
  let confirmAAD := S.cat [hello.ephPub, hello.mlkemCiphertext]
  match (srvCipher.decrypt S hello.encConfirm confirmAAD).1 with
  | none =>
    .error "handshake confirm decrypt failed: chacha20poly1305: message authentication failed"
  | some plaintext =>
    match S.splitConfirm plaintext with
    | none => .error "confirm too short"
    | some confirm =>
      if confirm.magic ≠ keys.dynamicMagic then
        .error "handshake magic mismatch — possible MITM or wrong server key"
      else if confirm.sessionID ≠ keys.sessionID then .error "handshake session ID mismatch"
      else
        let staticShared ← wrapError "server static authentication"
          (S.dhSafe c.ephemeralKeypair.priv c.serverStaticPub)
        let expectedProof := serverStaticProof S staticShared c.ephemeralKeypair.pub c.salt
          hello.ephPub keys.sessionID
        if confirm.proof ≠ expectedProof then
          .error "server static proof mismatch — possible MITM or wrong server key"
        else return ()

/-- `ProcessServerHello` on the fields. -/
def ClientHandshake.processFields (c : ClientHandshake M) (hello : ServerHello M) :
    ClientHandshake M × Except String (FramerKeys M) :=
  match c.deriveSession S hello with
  | .error err => (c, .error err)
  | .ok keys =>
    let c := { c with sessionKeys := some keys }
    match c.checkConfirm S hello keys with
    | .error err => (c, .error err)
    | .ok () =>
      let cliEnc := newCipher keys.clientKey keys.clientIV
      let srvDec := newCipher keys.serverKey keys.serverIV
      let (clientHeaderKey, serverHeaderKey) := S.deriveTCPHeaderKeys keys
      ({ c with ephemeralKeypair := zeroKeypair S },
        .ok ⟨cliEnc, srvDec, clientHeaderKey, serverHeaderKey⟩)

end Client

/-! ## Successful phases -/

section Inversion

theorem bind_ok {α β : Type} {x : Except String α} {f : α → Except String β} {b : β} :
    (x >>= f) = .ok b ↔ ∃ a, x = .ok a ∧ f a = .ok b := by
  cases x <;> simp [bind, Except.bind]

theorem wrapError_ok {α : Type} {message : String} {x : Except String α} {a : α} :
    wrapError message x = .ok a ↔ x = .ok a := by
  cases x <;> simp [wrapError]

/-- The identity a client seals. -/
def ClientHandshake.identity (S : Suite M) (c : ClientHandshake M) (tmpKeys : SessionKeys M)
    (staticShared ts : M) : M :=
  S.cat [tmpKeys.dynamicMagic, c.staticKeypair.pub, ts,
    clientProof S staticShared tmpKeys.dynamicMagic c.ephemeralKeypair.pub c.mlkemEncPub c.salt ts]

theorem buildIdentity_ok {S : Suite M} {c : ClientHandshake M} {now : ℤ}
    {out : ClientHello M × Cipher M} :
    c.buildIdentity S now = .ok out ↔ ∃ shared staticShared,
      S.dhSafe c.ephemeralKeypair.priv c.serverStaticPub = .ok shared ∧
      S.dhSafe c.staticKeypair.priv c.serverStaticPub = .ok staticShared ∧
      out =
        let tmpKeys := S.deriveKeys shared c.salt c.ephemeralKeypair.pub c.serverStaticPub
        let encIdentity := (newCipher tmpKeys.clientKey tmpKeys.clientIV).encrypt S
          (c.identity S tmpKeys staticShared (S.putTime now))
          (S.cat [c.ephemeralKeypair.pub, c.mlkemEncPub])
        (⟨c.ephemeralKeypair.pub, c.mlkemEncPub, c.salt, encIdentity.1⟩, encIdentity.2) := by
  simp only [ClientHandshake.buildIdentity, bind_ok, pure, Except.pure, Except.ok.injEq]
  constructor
  · rintro ⟨shared, h1, staticShared, h2, rfl⟩
    exact ⟨shared, staticShared, h1, h2, rfl⟩
  · rintro ⟨shared, staticShared, h1, h2, rfl⟩
    exact ⟨shared, h1, staticShared, h2, rfl⟩

variable [DecidableEq M] {S : Suite M}

theorem openIdentity_ok {s : ServerHandshake M} {hello : ClientHello M} {o : Opened M} :
    s.openIdentity S hello = .ok o ↔
      S.dhSafe s.staticPriv hello.ephPub = .ok o.shared ∧
      o.tmpKeys = S.deriveKeys o.shared hello.salt hello.ephPub s.staticPub ∧
      o.identity.magic = o.tmpKeys.dynamicMagic ∧
      ∃ plaintext, S.aeadOpen o.tmpKeys.clientKey (S.nonceAt o.tmpKeys.clientIV 0)
          hello.encIdentity (S.cat [hello.ephPub, hello.mlkemPub]) = some plaintext ∧
        S.splitIdentity plaintext = some o.identity := by
  simp only [ServerHandshake.openIdentity, bind_ok]
  constructor
  · rintro ⟨shared, hdh, h⟩
    split at h
    · exact absurd h (by simp)
    · rename_i plaintext hopen
      split at h
      · exact absurd h (by simp)
      · rename_i identity hsplit
        split at h
        · exact absurd h (by simp)
        · rename_i hmagic
          cases h
          exact ⟨hdh, rfl, not_not.mp hmagic, plaintext, hopen, hsplit⟩
  · rintro ⟨hdh, hkeys, hmagic, plaintext, hopen, hsplit⟩
    refine ⟨o.shared, hdh, ?_⟩
    simp only [Cipher.decrypt, Cipher.nonce, newCipher, ← hkeys, hopen, hsplit, hmagic, ne_eq,
      not_true_eq_false, if_false, pure, Except.pure]

theorem authenticate_ok {s : ServerHandshake M} {hello : ClientHello M} {o : Opened M} {now : ℤ} :
    s.authenticate S hello o now = .ok () ↔
      ByteStr.abs64 (ByteStr.wrap64 (now - S.getTime o.identity.ts)) ≤ replayWindowSec ∧
      (∃ staticShared, S.dhSafe s.staticPriv o.identity.staticPub = .ok staticShared ∧
        o.identity.proof = clientProof S staticShared o.tmpKeys.dynamicMagic hello.ephPub
          hello.mlkemPub hello.salt o.identity.ts) ∧
      ∀ allowed, s.allowedClients = some allowed → o.identity.staticPub ∈ allowed := by
  simp only [ServerHandshake.authenticate]
  by_cases hts : ByteStr.abs64 (ByteStr.wrap64 (now - S.getTime o.identity.ts)) > replayWindowSec
  · simp only [if_pos hts]
    refine iff_of_false (by simp) fun h => absurd h.1 (by omega)
  · simp only [if_neg hts, bind_ok, Int.not_lt.mp hts, true_and]
    constructor
    · rintro ⟨staticShared, hdh, h⟩
      split at h
      · exact absurd h (by simp)
      · rename_i hproof
        refine ⟨⟨staticShared, hdh, not_not.mp hproof⟩, fun allowed ha => ?_⟩
        simp only [ha] at h
        by_contra hmem
        simp [hmem] at h
    · rintro ⟨⟨staticShared, hdh, hproof⟩, hallowed⟩
      refine ⟨staticShared, hdh, ?_⟩
      rw [if_neg (not_not.mpr hproof)]
      cases ha : s.allowedClients with
      | none => rfl
      | some allowed => simp only [if_pos (hallowed allowed ha)]; rfl

omit [DecidableEq M] in
theorem respond_ok {s : ServerHandshake M} {hello : ClientHello M} {shared coins : M}
    {r : Response M} :
    s.respond S hello shared coins = .ok r ↔ ∃ sharedMLKEM ciphertext sharedFinal,
      S.encapsulateMLKEM hello.mlkemPub coins = .ok (sharedMLKEM, ciphertext) ∧
      S.dhSafe s.ephKeypair.priv hello.ephPub = .ok sharedFinal ∧
      r =
        let keys := S.deriveKeys (S.deriveHybridSecret sharedFinal sharedMLKEM hello.salt) hello.salt
          hello.ephPub s.ephKeypair.pub
        let encConfirm := (newCipher keys.serverKey keys.serverIV).encrypt S
          (S.cat [keys.dynamicMagic, keys.sessionID,
            serverStaticProof S shared hello.ephPub hello.salt s.ephKeypair.pub keys.sessionID])
          (S.cat [s.ephKeypair.pub, ciphertext])
        ⟨keys, ⟨s.ephKeypair.pub, ciphertext, encConfirm.1⟩, encConfirm.2,
          ⟨newCipher keys.serverKey keys.serverIV, newCipher keys.clientKey keys.clientIV,
            (S.deriveTCPHeaderKeys keys).2, (S.deriveTCPHeaderKeys keys).1⟩⟩ := by
  simp only [ServerHandshake.respond, bind_ok, wrapError_ok, Prod.exists, pure, Except.pure,
    Except.ok.injEq]
  constructor
  · rintro ⟨sharedMLKEM, ciphertext, henc, sharedFinal, hdh, rfl⟩
    exact ⟨sharedMLKEM, ciphertext, sharedFinal, henc, hdh, rfl⟩
  · rintro ⟨sharedMLKEM, ciphertext, sharedFinal, henc, hdh, rfl⟩
    exact ⟨sharedMLKEM, ciphertext, henc, sharedFinal, hdh, rfl⟩

/-- **A ClientHello that is accepted went through every phase.** -/
theorem ServerHandshake.processFields_ok {s s' : ServerHandshake M} {hello : ClientHello M}
    {now : ℤ} {coins : M} {r : Response M} :
    s.processFields S hello now coins = (s', .ok r) ↔ ∃ o,
      s.openIdentity S hello = .ok o ∧ s.authenticate S hello o now = .ok () ∧
      s.respond S hello o.shared coins = .ok r ∧
      s' = { s with
        clientStaticPub := o.identity.staticPub
        sessionKeys := some r.keys
        ephKeypair := zeroKeypair S } := by
  unfold ServerHandshake.processFields
  constructor
  · intro h
    split at h
    · exact absurd (Prod.mk.inj h).2 (by simp)
    · rename_i o ho
      simp only at h
      split at h
      · exact absurd (Prod.mk.inj h).2 (by simp)
      · rename_i hauth
        split at h
        · exact absurd (Prod.mk.inj h).2 (by simp)
        · rename_i r' hr
          obtain ⟨hs, hr'⟩ := Prod.mk.inj h
          obtain rfl := Except.ok.inj hr'
          exact ⟨o, ho, hauth, hr, hs.symm⟩
  · rintro ⟨o, ho, hauth, hr, rfl⟩
    -- the stored key of the client plays no part in the later phases
    have hauth' : ({ s with clientStaticPub := o.identity.staticPub } :
        ServerHandshake M).authenticate S hello o now = .ok () := hauth
    have hr' : ({ s with clientStaticPub := o.identity.staticPub } :
        ServerHandshake M).respond S hello o.shared coins = .ok r := hr
    simp only [ho, hauth', hr']

omit [DecidableEq M] in
theorem deriveSession_ok {c : ClientHandshake M} {hello : ServerHello M} {keys : SessionKeys M} :
    c.deriveSession S hello = .ok keys ↔ ∃ sharedX25519 sharedMLKEM,
      S.dhSafe c.ephemeralKeypair.priv hello.ephPub = .ok sharedX25519 ∧
      S.decapsulateMLKEM c.mlkemDecKey hello.mlkemCiphertext = .ok sharedMLKEM ∧
      keys = S.deriveKeys (S.deriveHybridSecret sharedX25519 sharedMLKEM c.salt) c.salt
        c.ephemeralKeypair.pub hello.ephPub := by
  simp only [ClientHandshake.deriveSession, bind_ok, wrapError_ok, pure, Except.pure,
    Except.ok.injEq]
  constructor
  · rintro ⟨sharedX25519, hdh, sharedMLKEM, hdec, rfl⟩
    exact ⟨sharedX25519, sharedMLKEM, hdh, hdec, rfl⟩
  · rintro ⟨sharedX25519, sharedMLKEM, hdh, hdec, rfl⟩
    exact ⟨sharedX25519, hdh, sharedMLKEM, hdec, rfl⟩

theorem checkConfirm_ok {c : ClientHandshake M} {hello : ServerHello M} {keys : SessionKeys M} :
    c.checkConfirm S hello keys = .ok () ↔ ∃ plaintext confirm staticShared,
      S.aeadOpen keys.serverKey (S.nonceAt keys.serverIV 0) hello.encConfirm
        (S.cat [hello.ephPub, hello.mlkemCiphertext]) = some plaintext ∧
      S.splitConfirm plaintext = some confirm ∧ confirm.magic = keys.dynamicMagic ∧
      confirm.sessionID = keys.sessionID ∧
      S.dhSafe c.ephemeralKeypair.priv c.serverStaticPub = .ok staticShared ∧
      confirm.proof = serverStaticProof S staticShared c.ephemeralKeypair.pub c.salt hello.ephPub
        keys.sessionID := by
  simp only [ClientHandshake.checkConfirm]
  constructor
  · intro h
    split at h
    · exact absurd h (by simp)
    rename_i plaintext hopen
    split at h
    · exact absurd h (by simp)
    rename_i confirm hsplit
    split at h
    · exact absurd h (by simp)
    rename_i hmagic
    split at h
    · exact absurd h (by simp)
    rename_i hsid
    obtain ⟨staticShared, hdh, h⟩ := bind_ok.mp h
    split at h
    · exact absurd h (by simp)
    rename_i hproof
    exact ⟨plaintext, confirm, staticShared, hopen, hsplit, not_not.mp hmagic, not_not.mp hsid,
      wrapError_ok.mp hdh, not_not.mp hproof⟩
  · rintro ⟨plaintext, confirm, staticShared, hopen, hsplit, hmagic, hsid, hdh, hproof⟩
    simp only [Cipher.decrypt, Cipher.nonce, newCipher, hopen, hsplit, hmagic, hsid, hdh, wrapError,
      ne_eq, not_true_eq_false, if_false, bind, Except.bind, hproof]
    rfl

/-- **A ServerHello that is accepted went through both phases.** -/
theorem ClientHandshake.processFields_ok {c c' : ClientHandshake M} {hello : ServerHello M}
    {fk : FramerKeys M} :
    c.processFields S hello = (c', .ok fk) ↔ ∃ keys,
      c.deriveSession S hello = .ok keys ∧ c.checkConfirm S hello keys = .ok () ∧
      fk = ⟨newCipher keys.clientKey keys.clientIV, newCipher keys.serverKey keys.serverIV,
        (S.deriveTCPHeaderKeys keys).1, (S.deriveTCPHeaderKeys keys).2⟩ ∧
      c' = { c with sessionKeys := some keys, ephemeralKeypair := zeroKeypair S } := by
  unfold ClientHandshake.processFields
  constructor
  · intro h
    split at h
    · exact absurd (Prod.mk.inj h).2 (by simp)
    · rename_i keys hkeys
      simp only at h
      split at h
      · exact absurd (Prod.mk.inj h).2 (by simp)
      · rename_i hcheck
        obtain ⟨hc, hfk⟩ := Prod.mk.inj h
        exact ⟨keys, hkeys, hcheck, (Except.ok.inj hfk).symm, hc.symm⟩
  · rintro ⟨keys, hkeys, hcheck, rfl, rfl⟩
    have hcheck' : ({ c with sessionKeys := some keys } : ClientHandshake M).checkConfirm S hello
        keys = .ok () := hcheck
    simp only [hkeys, hcheck']

end Inversion

end ObsidianVPN.Handshake
