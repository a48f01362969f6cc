import ObsidianVPN.Handshake.Core
import ObsidianVPN.Lib.Symbolic

/-!
# Mutual authentication against a network attacker

The handshake of `Handshake.Core` over symbolic terms, for any number of clients, servers and
concurrent handshakes. The attacker knows all public keys, sees every message, and supplies every
message that is received; it does not hold the static keys of the clients and servers, nor their
ephemeral secrets. Clients may also be made to talk to keys of the attacker's choice.

* `symbolicSuite`: the operations of the handshake on terms;
* `World`, `Step`, `Reachable`: what has been sent and accepted so far, and how it grows;
* `World.Knows.safe`: what the attacker knows is safe in the sense of `Symbolic.Safe`, so that MACs
  under keys of honest parties are those that honest parties have made;
* **`mutual_authentication`**: an accepted ServerHello comes from the server that the client has
  pinned, which holds the same session keys, and an accepted ClientHello from the client it names.
-/

namespace ObsidianVPN.Handshake

open Symbolic

/-- Names of honest secrets and salts, by party or handshake, and names of the attacker. -/
inductive Name where
  | clientStatic (i : ℕ)
  | serverStatic (j : ℕ)
  | clientEph (k : ℕ)
  | mlkemDec (k : ℕ)
  | salt (k : ℕ)
  | serverEph (n : ℕ)
  | coins (n : ℕ)
  | attacker (n : ℕ)
  deriving DecidableEq

def Name.secret : Name → Bool
  | .salt _ => false
  | .attacker _ => false
  | _ => true

abbrev Msg := Term Name

/-! ## The operations -/

def splitIdentityTerm : Msg → Option (Identity Msg)
  | .pair magic (.pair staticPub (.pair ts (.pair proof _))) => some ⟨magic, staticPub, ts, proof⟩
  | _ => none

def splitConfirmTerm : Msg → Option (Confirm Msg)
  | .pair magic (.pair sessionID (.pair proof .nil)) => some ⟨magic, sessionID, proof⟩
  | _ => none

def deriveKeysTerm (secret salt clientPub serverPub : Msg) : SessionKeys Msg :=
  let info := Term.tuple [salt, clientPub, serverPub]
  { clientKey := .kdf 0 secret info
    serverKey := .kdf 1 secret info
    clientIV := .kdf 2 secret info
    serverIV := .kdf 3 secret info
    sessionID := .kdf 4 secret info
    dynamicMagic := .kdf 5 secret info }

/-- The operations of the handshake on terms; `code` numbers the terms that are used as scalars. -/
def symbolicSuite (code : Msg → ℕ) : Suite Msg where
  zeroKey := .label 0
  dhSafe priv peerPub :=
    if peerPub = .label 0 then .error "DH produced all-zero shared secret (possible attack)"
    else .ok (.dh code priv peerPub)
  deriveKeys := deriveKeysTerm
  deriveHybridSecret x k salt := .kdf 6 x (.tuple [k, salt])
  deriveTCPHeaderKeys sk :=
    (.kdf 7 (.pair sk.clientKey sk.serverKey) sk.sessionID,
      .kdf 8 (.pair sk.clientKey sk.serverKey) sk.sessionID)
  hmacSHA256 := .mac
  nonceAt := .nonce
  aeadSeal := .aead
  aeadOpen := Term.openWith
  encapsulateMLKEM e coins := .ok (.kss e coins, .kct e coins)
  decapsulateMLKEM dk c := .ok (.decap dk c)
  cat := Term.tuple
  putTime := .num
  getTime
    | .num z => z
    | _ => 0
  splitIdentity := splitIdentityTerm
  splitConfirm := splitConfirmTerm
  serverAuthLabel := .label 1

/-! ## Parties -/

/-- A handshake of client `client` with the server key it has pinned. -/
structure ClientSession where
  client : ℕ
  session : ℕ
  pinned : Msg
  deriving DecidableEq

def ClientSession.start (s : ClientSession) : ClientHandshake Msg where
  serverStaticPub := s.pinned
  ephemeralKeypair := ⟨.name (.clientEph s.session), .pub (.clientEph s.session)⟩
  mlkemDecKey := .name (.mlkemDec s.session)
  mlkemEncPub := .ek (.name (.mlkemDec s.session))
  staticKeypair := ⟨.name (.clientStatic s.client), .pub (.clientStatic s.client)⟩
  salt := .name (.salt s.session)
  sessionKeys := none

/-- Handshake `n` of server `j`. -/
def serverStart (j n : ℕ) (allowed : Option (List Msg)) : ServerHandshake Msg where
  staticPriv := .name (.serverStatic j)
  staticPub := .pub (.serverStatic j)
  ephKeypair := ⟨.name (.serverEph n), .pub (.serverEph n)⟩
  allowedClients := allowed
  clientStaticPub := .label 0
  sessionKeys := none

/-- A client has built a hello at `time`. -/
structure Built where
  session : ClientSession
  time : ℤ

/-- A server has accepted a hello and holds `keys`. -/
structure Served where
  server : ℕ
  session : ℕ
  hello : ClientHello Msg
  keys : SessionKeys Msg

structure World where
  sessions : List ClientSession
  built : List Built
  served : List Served
  /-- The fields of all messages sent. -/
  net : List Msg

/-- What the attacker sees: the network and the static public keys. -/
def World.Observed (w : World) (t : Msg) : Prop :=
  t ∈ w.net ∨ (∃ i, t = .pub (.clientStatic i)) ∨ ∃ j, t = .pub (.serverStatic j)

section Steps

variable (code : Msg → ℕ)

def World.Knows (w : World) (t : Msg) : Prop :=
  Symbolic.Knows code (fun n => n.secret = false) w.Observed t

/-- The attacker can send the message. -/
def World.SendsClientHello (w : World) (h : ClientHello Msg) : Prop :=
  w.Knows code h.ephPub ∧ w.Knows code h.mlkemPub ∧ w.Knows code h.salt ∧ w.Knows code h.encIdentity

def World.SendsServerHello (w : World) (h : ServerHello Msg) : Prop :=
  w.Knows code h.ephPub ∧ w.Knows code h.mlkemCiphertext ∧ w.Knows code h.encConfirm

/-- One party acts. A call that fails sends nothing and leaves the world as it is. -/
inductive Step : World → World → Prop
  | start {w} (s : ClientSession) (fresh : ∀ s' ∈ w.sessions, s'.session ≠ s.session)
      (known : w.Knows code s.pinned) : Step w { w with sessions := s :: w.sessions }
  | build {w} (s : ClientSession) (started : s ∈ w.sessions) (now : ℤ) (hello : ClientHello Msg)
      (tmpCipher : Cipher Msg)
      (built : s.start.buildIdentity (symbolicSuite code) now = .ok (hello, tmpCipher)) :
      Step w { w with
        built := ⟨s, now⟩ :: w.built
        net := hello.ephPub :: hello.mlkemPub :: hello.salt :: hello.encIdentity :: w.net }
  | serve {w} (j n : ℕ) (allowed : Option (List Msg)) (fresh : ∀ e ∈ w.served, e.session ≠ n)
      (hello : ClientHello Msg) (sent : w.SendsClientHello code hello) (now : ℤ)
      (s' : ServerHandshake Msg) (r : Response Msg)
      (accepted : (serverStart j n allowed).processFields (symbolicSuite code) hello now
        (.name (.coins n)) = (s', .ok r)) :
      Step w { w with
        served := ⟨j, n, hello, r.keys⟩ :: w.served
        net := r.hello.ephPub :: r.hello.mlkemCiphertext :: r.hello.encConfirm :: w.net }

/-- The worlds that arise from any interleaving. -/
inductive Reachable : World → Prop
  | init : Reachable ⟨[], [], [], []⟩
  | step {w w'} : Reachable w → Step code w w' → Reachable w'

end Steps

/-! ## MACs of honest parties -/

section Proofs

variable (code : Msg → ℕ)

/-- The data the client authenticates. -/
def Built.data (b : Built) : Msg :=
  let c := b.session.start
  .tuple [(deriveKeysTerm (.dh code c.ephemeralKeypair.priv c.serverStaticPub) c.salt
      c.ephemeralKeypair.pub c.serverStaticPub).dynamicMagic,
    c.ephemeralKeypair.pub, c.mlkemEncPub, c.salt, .num b.time]

def Built.key (b : Built) : Msg := .dh code (.name (.clientStatic b.session.client)) b.session.pinned

/-- The data the server authenticates. -/
def Served.data (e : Served) : Msg :=
  .tuple [.label 1, e.hello.ephPub, e.hello.salt, .pub (.serverEph e.session), e.keys.sessionID]

def Served.key (e : Served) : Msg := .dh code (.name (.serverStatic e.server)) e.hello.ephPub

/-- The MACs that honest parties have made. -/
def World.Made (w : World) (key data : Msg) : Prop :=
  (∃ b ∈ w.built, key = b.key code ∧ data = b.data code) ∨
    ∃ e ∈ w.served, key = e.key code ∧ data = e.data

variable {code}

theorem dhSafe_ok {priv peerPub shared : Msg}
    (h : (symbolicSuite code).dhSafe priv peerPub = .ok shared) : shared = .dh code priv peerPub := by
  simp only [symbolicSuite] at h
  split at h
  · cases h
  · exact (Except.ok.inj h).symm

/-- The fields of a built hello are safe, once its MAC counts as made. -/
theorem safe_of_built {Made : Msg → Msg → Prop} {s : ClientSession} {now : ℤ}
    {hello : ClientHello Msg} {tmpCipher : Cipher Msg}
    (hb : s.start.buildIdentity (symbolicSuite code) now = .ok (hello, tmpCipher))
    (hmade : Made (Built.key code ⟨s, now⟩) (Built.data code ⟨s, now⟩)) :
    ∀ t ∈ [hello.ephPub, hello.mlkemPub, hello.salt, hello.encIdentity],
      Safe Name.secret Made t := by
  obtain ⟨shared, staticShared, hdh, hdh', hout⟩ := buildIdentity_ok.mp hb
  obtain rfl := dhSafe_ok hdh
  obtain rfl := dhSafe_ok hdh'
  obtain ⟨rfl, -⟩ := Prod.mk.inj hout
  have hproof : Safe Name.secret Made
      (.mac (Built.key code ⟨s, now⟩) (Built.data code ⟨s, now⟩)) := by
    simp only [Safe]
    exact .inr hmade
  simp only [List.forall_mem_cons, List.not_mem_nil, false_imp_iff, implies_true, and_true]
  refine ⟨safe_pub _, by simp only [ClientSession.start, Safe], rfl, safe_aead_tuple ?_ ?_⟩
  · -- whoever knows the key knows the secret it was derived from
    intro hkey
    simp only [List.forall_mem_cons, List.not_mem_nil, false_imp_iff, implies_true, and_true]
    exact ⟨hkey, safe_pub _, trivial, hproof⟩
  · simp only [List.forall_mem_cons, List.not_mem_nil, false_imp_iff, implies_true, and_true]
    exact ⟨trivial, trivial, trivial, hproof.macsMade⟩

/-- What an accepting server has computed. -/
theorem served_ok {j n : ℕ} {allowed : Option (List Msg)} {hello : ClientHello Msg} {now : ℤ}
    {s' : ServerHandshake Msg} {r : Response Msg}
    (h : (serverStart j n allowed).processFields (symbolicSuite code) hello now (.name (.coins n)) =
      (s', .ok r)) :
    r.keys = deriveKeysTerm (.kdf 6 (.dh code (.name (.serverEph n)) hello.ephPub)
        (.tuple [.kss hello.mlkemPub (.name (.coins n)), hello.salt])) hello.salt hello.ephPub
        (.pub (.serverEph n)) ∧
      r.hello = ⟨.pub (.serverEph n), .kct hello.mlkemPub (.name (.coins n)),
        .aead r.keys.serverKey (.nonce r.keys.serverIV 0)
          (.tuple [r.keys.dynamicMagic, r.keys.sessionID,
            .mac (Served.key code ⟨j, n, hello, r.keys⟩) (Served.data ⟨j, n, hello, r.keys⟩)])
          (.tuple [.pub (.serverEph n), .kct hello.mlkemPub (.name (.coins n))])⟩ := by
  obtain ⟨o, hopen, -, hresp, -⟩ := ServerHandshake.processFields_ok.mp h
  have hshared := dhSafe_ok (openIdentity_ok.mp hopen).1
  obtain ⟨sharedMLKEM, ciphertext, sharedFinal, hencap, hdh, rfl⟩ := respond_ok.mp hresp
  obtain ⟨rfl, rfl⟩ := Prod.mk.inj (Except.ok.inj hencap)
  obtain rfl := dhSafe_ok hdh
  rw [hshared]
  exact ⟨rfl, rfl⟩

/-- The fields of the answer of a server are safe, once its MAC counts as made. -/
theorem safe_of_served {Made : Msg → Msg → Prop} {j n : ℕ} {allowed : Option (List Msg)}
    {hello : ClientHello Msg} {now : ℤ} {s' : ServerHandshake Msg} {r : Response Msg}
    (h : (serverStart j n allowed).processFields (symbolicSuite code) hello now (.name (.coins n)) =
      (s', .ok r))
    (hmade : Made (Served.key code ⟨j, n, hello, r.keys⟩) (Served.data ⟨j, n, hello, r.keys⟩)) :
    ∀ t ∈ [r.hello.ephPub, r.hello.mlkemCiphertext, r.hello.encConfirm],
      Safe Name.secret Made t := by
  obtain ⟨hkeys, hhello⟩ := served_ok h
  have hproof : Safe Name.secret Made
      (.mac (Served.key code ⟨j, n, hello, r.keys⟩) (Served.data ⟨j, n, hello, r.keys⟩)) := by
    simp only [Safe]
    exact .inr hmade
  rw [hhello]
  simp only [List.forall_mem_cons, List.not_mem_nil, false_imp_iff, implies_true, and_true]
  refine ⟨safe_pub _, by simp only [Safe], safe_aead_tuple ?_ ?_⟩
  · intro hkey
    simp only [List.forall_mem_cons, List.not_mem_nil, false_imp_iff, implies_true, and_true]
    refine ⟨?_, ?_, hproof⟩ <;> rw [hkeys] at hkey ⊢ <;> exact hkey
  · simp only [List.forall_mem_cons, List.not_mem_nil, false_imp_iff, implies_true, and_true]
    refine ⟨?_, ?_, hproof.macsMade⟩ <;> rw [hkeys] <;> trivial

/-- **Everything on the network is safe**, for any notion of a made MAC that covers those of the
honest parties. -/
theorem net_safe {w : World} (hw : Reachable code w) {Made : Msg → Msg → Prop}
    (hbuilt : ∀ b ∈ w.built, Made (b.key code) (b.data code))
    (hserved : ∀ e ∈ w.served, Made (e.key code) e.data) :
    ∀ t ∈ w.net, Safe Name.secret Made t := by
  induction hw with
  | init => simp
  | step _ hstep ih =>
    cases hstep with
    | start s fresh known => exact ih hbuilt hserved
    | build s started now hello tmpCipher built =>
      simp only [List.forall_mem_cons] at hbuilt ⊢
      have hnew := safe_of_built built hbuilt.1
      simp only [List.forall_mem_cons] at hnew
      exact ⟨hnew.1, hnew.2.1, hnew.2.2.1, hnew.2.2.2.1, ih hbuilt.2 hserved⟩
    | serve j n allowed fresh hello sent now s' r accepted =>
      simp only [List.forall_mem_cons] at hserved ⊢
      have hnew := safe_of_served accepted hserved.1
      simp only [List.forall_mem_cons] at hnew
      exact ⟨hnew.1, hnew.2.1, hnew.2.2.1, ih hbuilt hserved.2⟩

/-- **What the attacker knows is safe**: MACs under unsafe keys were made by honest parties. -/
theorem World.Knows.safe {w : World} (hw : Reachable code w) {t : Msg} (ht : w.Knows code t) :
    Safe Name.secret (w.Made code) t := by
  refine Symbolic.Knows.safe (fun _ h => h) ?_ ht
  rintro t (ht | ⟨i, rfl⟩ | ⟨j, rfl⟩)
  · exact net_safe hw (fun b hb => .inl ⟨b, hb, rfl, rfl⟩) (fun e he => .inr ⟨e, he, rfl, rfl⟩) t ht
  · exact safe_pub _
  · exact safe_pub _

/-- A MAC under a key of two honest secrets, sent inside an encrypted message, was made by an honest
party. -/
theorem made_of_sent {w : World} (hw : Reachable code w) {k n p a key data : Msg}
    (hknown : w.Knows code (.aead k n p a))
    (hmac : MacsMade Name.secret (w.Made code) p → MacsMade Name.secret (w.Made code) (.mac key data))
    {x y : Name} (hx : x.secret = true) (hy : y.secret = true) (hkey : key = .point .gen {x, y} 0) :
    w.Made code key data := by
  have hsafe := hknown.safe hw
  simp only [Safe] at hsafe
  refine made_of_macsMade (hmac hsafe.2) ?_
  rw [hkey]
  exact not_safe_point hx hy 0

/-- The session keys of a server are those of the hello it has accepted. -/
theorem served_keys {w : World} (hw : Reachable code w) : ∀ e ∈ w.served,
    e.keys = deriveKeysTerm (.kdf 6 (.dh code (.name (.serverEph e.session)) e.hello.ephPub)
      (.tuple [.kss e.hello.mlkemPub (.name (.coins e.session)), e.hello.salt])) e.hello.salt
      e.hello.ephPub (.pub (.serverEph e.session)) := by
  induction hw with
  | init => simp
  | step _ hstep ih =>
    cases hstep with
    | start s fresh known => exact ih
    | build s started now hello tmpCipher built => exact ih
    | serve j n allowed fresh hello sent now s' r accepted =>
      exact List.forall_mem_cons.mpr ⟨(served_ok accepted).1, ih⟩

/-! ## Authentication -/

/-- **Authentication of the server.** -/
theorem server_of_client_accepts {w : World} (hw : Reachable code w) {s : ClientSession} {j : ℕ}
    (hpin : s.pinned = .pub (.serverStatic j)) {hello : ServerHello Msg}
    (hsent : w.SendsServerHello code hello) {c' : ClientHandshake Msg} {fk : FramerKeys Msg}
    {keys : SessionKeys Msg}
    (hok : s.start.processFields (symbolicSuite code) hello = (c', .ok fk))
    (hkeys : c'.sessionKeys = some keys) :
    ∃ e ∈ w.served, e.server = j ∧ e.hello.ephPub = s.start.ephemeralKeypair.pub ∧
      e.hello.mlkemPub = s.start.mlkemEncPub ∧ e.hello.salt = s.start.salt ∧ e.keys = keys := by
  obtain ⟨keys', hderive, hcheck, -, rfl⟩ := ClientHandshake.processFields_ok.mp hok
  obtain rfl : keys' = keys := Option.some.inj hkeys
  obtain ⟨x, kem, hx, hkem, rfl⟩ := deriveSession_ok.mp hderive
  obtain rfl := dhSafe_ok hx
  obtain rfl : Term.decap s.start.mlkemDecKey hello.mlkemCiphertext = kem := Except.ok.inj hkem
  obtain ⟨plaintext, confirm, staticShared, hopen, hsplit, -, -, hdh, hproof⟩ :=
    checkConfirm_ok.mp hcheck
  obtain rfl := dhSafe_ok hdh
  have hcipher := Term.openWith_eq_some.mp hopen
  -- the proof is a MAC under the client's ephemeral and the server's static key
  have hkey : Term.dh code s.start.ephemeralKeypair.priv s.start.serverStaticPub =
      .point .gen {.clientEph s.session, .serverStatic j} 0 := by
    rw [show s.start.serverStaticPub = s.pinned from rfl, hpin]
    exact Term.dh_name_pub code _ _
  have hmac : MacsMade Name.secret (w.Made code) plaintext →
      MacsMade Name.secret (w.Made code) confirm.proof := by
    unfold symbolicSuite splitConfirmTerm at hsplit
    simp only at hsplit
    split at hsplit
    · cases hsplit
      simp only [MacsMade]
      exact fun h => h.2.2.1
    · cases hsplit
  rw [hproof] at hmac
  have hknown := hsent.2.2
  rw [hcipher] at hknown
  rcases made_of_sent hw hknown hmac rfl rfl hkey with ⟨b, -, -, hdata⟩ | ⟨e, he, hekey, hdata⟩
  · simp [symbolicSuite, Term.tuple, Built.data, deriveKeysTerm] at hdata
  · have hk := served_keys hw e he
    simp only [symbolicSuite, Term.tuple, Served.data, deriveKeysTerm, hk, Term.pair.injEq,
      Term.kdf.injEq, true_and, and_true] at hdata
    obtain ⟨heph, hsalt, hseph, ⟨hshared, hkss, -⟩, -⟩ := hdata
    have hmem := Term.mem_of_dh_eq_point (hekey.symm.trans hkey)
    refine ⟨e, he, by simpa using hmem, heph.symm, Term.eq_of_decap_eq_kss hkss, hsalt.symm, ?_⟩
    rw [hk, ← hshared, ← hkss, ← heph, ← hsalt, ← hseph]
    rfl

/-- **Authentication of the client.** -/
theorem client_of_server_accepts {w : World} (hw : Reachable code w) {j n : ℕ}
    {allowed : Option (List Msg)} {hello : ClientHello Msg} (hsent : w.SendsClientHello code hello)
    {now : ℤ} {coins : Msg} {s' : ServerHandshake Msg} {r : Response Msg}
    (hok : (serverStart j n allowed).processFields (symbolicSuite code) hello now coins = (s', .ok r))
    {i : ℕ} (hclient : s'.clientStaticPub = .pub (.clientStatic i)) :
    ∃ b ∈ w.built, b.session.client = i ∧ hello.ephPub = b.session.start.ephemeralKeypair.pub ∧
      hello.mlkemPub = b.session.start.mlkemEncPub ∧ hello.salt = b.session.start.salt ∧
      ∃ o, (serverStart j n allowed).openIdentity (symbolicSuite code) hello = .ok o ∧
        o.identity.ts = .num b.time := by
  obtain ⟨o, hopen, hauth, -, rfl⟩ := ServerHandshake.processFields_ok.mp hok
  obtain ⟨-, htmp, -, plaintext, hdec, hsplit⟩ := openIdentity_ok.mp hopen
  obtain ⟨-, ⟨staticShared, hdh, hproof⟩, -⟩ := authenticate_ok.mp hauth
  obtain rfl := dhSafe_ok hdh
  have hcipher := Term.openWith_eq_some.mp hdec
  -- the proof is a MAC under the static keys of both parties
  have hkey : Term.dh code (serverStart j n allowed).staticPriv o.identity.staticPub =
      .point .gen {.serverStatic j, .clientStatic i} 0 := by
    rw [show o.identity.staticPub = .pub (.clientStatic i) from hclient]
    exact Term.dh_name_pub code _ _
  have hmac : MacsMade Name.secret (w.Made code) plaintext →
      MacsMade Name.secret (w.Made code) o.identity.proof := by
    unfold symbolicSuite splitIdentityTerm at hsplit
    simp only at hsplit
    split at hsplit
    · rename_i magic staticPub ts proof rest
      rw [← Option.some.inj hsplit]
      simp only [MacsMade]
      exact fun h => h.2.2.2.1
    · cases hsplit
  rw [hproof] at hmac
  have hknown := hsent.2.2.2
  rw [hcipher] at hknown
  rcases made_of_sent hw hknown hmac rfl rfl hkey with ⟨b, hb, hbkey, hdata⟩ | ⟨e, -, -, hdata⟩
  · simp only [symbolicSuite, Term.tuple, Built.data, Term.pair.injEq, and_true] at hdata
    obtain ⟨-, heph, hmlkem, hsalt, hts⟩ := hdata
    have hmem := Term.mem_of_dh_eq_point (hbkey.symm.trans hkey)
    exact ⟨b, hb, by simpa using hmem, heph, hmlkem, hsalt, o, hopen, hts⟩
  · simp [symbolicSuite, Term.tuple, Served.data, htmp, deriveKeysTerm] at hdata

/-- **Mutual authentication.** In every reachable world: (a) when a client that has pinned the key of
server `j` accepts a ServerHello with some session keys, server `j` has accepted a hello with the
client's ephemeral key, ML-KEM key and salt and holds the same session keys; (b) when a server accepts
a ClientHello for the static key of client `i`, that client has built a hello with the same ephemeral
key, ML-KEM key, salt and timestamp. -/
theorem mutual_authentication {w : World} (hw : Reachable code w) :
    (∀ s ∈ w.sessions, ∀ (j : ℕ) (hello : ServerHello Msg) (c' : ClientHandshake Msg)
        (fk : FramerKeys Msg) (keys : SessionKeys Msg),
      s.pinned = .pub (.serverStatic j) → w.SendsServerHello code hello →
      s.start.processFields (symbolicSuite code) hello = (c', .ok fk) →
      c'.sessionKeys = some keys →
      ∃ e ∈ w.served, e.server = j ∧ e.hello.ephPub = s.start.ephemeralKeypair.pub ∧
        e.hello.mlkemPub = s.start.mlkemEncPub ∧ e.hello.salt = s.start.salt ∧ e.keys = keys) ∧
    (∀ (j n : ℕ) (allowed : Option (List Msg)) (hello : ClientHello Msg) (now : ℤ) (coins : Msg)
        (s' : ServerHandshake Msg) (r : Response Msg) (i : ℕ),
      w.SendsClientHello code hello →
      (serverStart j n allowed).processFields (symbolicSuite code) hello now coins = (s', .ok r) →
      s'.clientStaticPub = .pub (.clientStatic i) →
      ∃ b ∈ w.built, b.session.client = i ∧ hello.ephPub = b.session.start.ephemeralKeypair.pub ∧
        hello.mlkemPub = b.session.start.mlkemEncPub ∧ hello.salt = b.session.start.salt ∧
        ∃ o, (serverStart j n allowed).openIdentity (symbolicSuite code) hello = .ok o ∧
          o.identity.ts = .num b.time) := by
  constructor
  · intro s _ j hello c' fk keys hpin hsent hok hkeys
    exact server_of_client_accepts hw hpin hsent hok hkeys
  · intro j n allowed hello now coins s' r i hsent hok hclient
    exact client_of_server_accepts hw hsent hok hclient

end Proofs

/-! ## An honest run -/

section Sample

/-- Client 0 with the key of server 0. -/
def honestSession : ClientSession := ⟨0, 0, .pub (.serverStatic 0)⟩

def honestHello : ClientHello Msg :=
  match honestSession.start.buildIdentity (symbolicSuite fun _ => 0) 1000 with
  | .ok (hello, _) => hello
  | .error _ => ⟨.nil, .nil, .nil, .nil⟩

def honestAnswer : SessionKeys Msg × ServerHello Msg :=
  match ((serverStart 0 0 none).processFields (symbolicSuite fun _ => 0) honestHello 1000
    (.name (.coins 0))).2 with
  | .ok r => (r.keys, r.hello)
  | .error _ => (⟨.nil, .nil, .nil, .nil, .nil, .nil⟩, ⟨.nil, .nil, .nil⟩)

/-- The world after client 0 has built its hello and server 0 has accepted it. -/
def honestWorld : World where
  sessions := [honestSession]
  built := [⟨honestSession, 1000⟩]
  served := [⟨0, 0, honestHello, honestAnswer.1⟩]
  net := [honestAnswer.2.ephPub, honestAnswer.2.mlkemCiphertext, honestAnswer.2.encConfirm,
    honestHello.ephPub, honestHello.mlkemPub, honestHello.salt, honestHello.encIdentity]

theorem honestWorld_reachable : Reachable (fun _ => 0) honestWorld := by
  have hstart : Reachable (fun _ => 0) ⟨[honestSession], [], [], []⟩ :=
    .step .init (.start honestSession (by simp) (.observed (.inr (.inr ⟨0, rfl⟩))))
  have hbuild := hstart.step (.build honestSession (by simp) 1000 honestHello _ rfl)
  have hok : ((serverStart 0 0 none).processFields (symbolicSuite fun _ => 0) honestHello 1000
    (.name (.coins 0))).2.toOption.isSome = true := by decide +kernel
  rcases hres : (serverStart 0 0 none).processFields (symbolicSuite fun _ => 0) honestHello 1000
    (.name (.coins 0)) with ⟨s', err | r⟩
  · rw [hres] at hok
    cases hok
  · have hsent : ∀ t ∈ [honestHello.ephPub, honestHello.mlkemPub, honestHello.salt,
        honestHello.encIdentity], World.Knows (fun _ => 0)
          ⟨[honestSession], [⟨honestSession, 1000⟩], [], [honestHello.ephPub, honestHello.mlkemPub,
            honestHello.salt, honestHello.encIdentity]⟩ t := fun t ht => .observed (.inl ht)
    have hserve := hbuild.step (.serve 0 0 none (by simp) honestHello ⟨hsent _ (by simp),
      hsent _ (by simp), hsent _ (by simp), hsent _ (by simp)⟩ 1000 s' r hres)
    have hanswer : honestAnswer = (r.keys, r.hello) := by simp only [honestAnswer, hres]
    simpa only [honestWorld, hanswer] using hserve

/-- The client accepts the answer, and the server holds its keys. -/
theorem mutual_authentication_honest :
    ∃ c' fk keys, honestSession.start.processFields (symbolicSuite fun _ => 0) honestAnswer.2 =
        (c', .ok fk) ∧ c'.sessionKeys = some keys ∧
      ∃ e ∈ honestWorld.served, e.server = 0 ∧ e.keys = keys := by
  have hok : (honestSession.start.processFields (symbolicSuite fun _ => 0)
    honestAnswer.2).2.toOption.isSome = true := by decide +kernel
  have hkeys : (honestSession.start.processFields (symbolicSuite fun _ => 0)
    honestAnswer.2).1.sessionKeys.isSome = true := by decide +kernel
  rcases hres : honestSession.start.processFields (symbolicSuite fun _ => 0) honestAnswer.2 with
    ⟨c', err | fk⟩
  · rw [hres] at hok
    cases hok
  · rw [hres] at hkeys
    obtain ⟨keys, hkeys⟩ := Option.isSome_iff_exists.mp hkeys
    have hsent : ∀ t ∈ honestWorld.net, honestWorld.Knows (fun _ => 0) t :=
      fun t ht => .observed (.inl ht)
    obtain ⟨e, he, hserver, -, -, -, hekeys⟩ := (mutual_authentication honestWorld_reachable).1
      honestSession (List.mem_singleton.mpr rfl) 0 honestAnswer.2 c' fk keys rfl
      ⟨hsent _ (by simp [honestWorld]), hsent _ (by simp [honestWorld]),
        hsent _ (by simp [honestWorld])⟩ hres hkeys
    exact ⟨c', fk, keys, rfl, hkeys, e, he, hserver, hekeys⟩

end Sample

end ObsidianVPN.Handshake
