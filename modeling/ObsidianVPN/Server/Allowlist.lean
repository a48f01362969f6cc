import ObsidianVPN.Server.Replay

/-!
# The allowlist of clients

"No list" is a nil slice: `allowed_clients` of the configuration goes through the JSON decoder, the
loop in `main` that converts its keys, and `NewServerHandshakeWithConfig`, and each of them tests for
nil again.

* `decodeStrings`, `convertAllowed`, `allowedClients`: from the configuration to the handshake;
* `allowedClients_list`: what becomes of a list that is there;
* **`enforced_iff`**: the list is enforced unless it is empty, in which case the server behaves as
  one without a list.
-/

namespace ObsidianVPN.Server

open ByteStr GoString Handshake ExpiryCache

/-! ## From the configuration to the handshake -/

/-- The member `allowed_clients` of the JSON object. -/
inductive JSONList where
  | absent
  | null
  | list (values : List Bytes)

/-- The slice `cfg.AllowedClients`; `none` is nil. -/
def decodeStrings : JSONList → Option (List Bytes)
  | .absent | .null => none
  | .list values => some values

/-- The loop of `main`: `append` makes a slice out of nil; the error is that of `log.Fatalf`. -/
def convertAllowed (allowed : Option (List Bytes)) :
    List Bytes → Except Bytes (Option (List Bytes))
  | [] => .ok allowed
  | ks :: rest =>
    match hexDecode ks with
    | none => .error (ascii "invalid allowed_client key: " ++ ks)
    | some b =>
      if b.length ≠ keySize then .error (ascii "invalid allowed_client key: " ++ ks)
      else convertAllowed (some (allowed.getD [] ++ [b])) rest

/-- The argument of `NewServerHandshakeWithConfig`, or the message with which the server exits. -/
def allowedClients (field : JSONList) : Except Bytes (Option (List Bytes)) :=
  match decodeStrings field with
  | none => .ok none
  | some values => convertAllowed none values

/-! ## What the loop makes of a list -/

theorem convertAllowed_ok {dst : List Bytes} {values : List Bytes} {allowed : Option (List Bytes)}
    (h : convertAllowed (some dst) values = .ok allowed) :
    ∃ keys, allowed = some (dst ++ keys) ∧ values.map hexDecode = keys.map some := by
  induction values generalizing dst with
  | nil =>
    cases h
    exact ⟨[], by simp⟩
  | cons ks rest ih =>
    rw [convertAllowed] at h
    split at h
    · cases h
    · rename_i b hb
      split at h
      · cases h
      · obtain ⟨keys, rfl, hkeys⟩ := ih h
        exact ⟨b :: keys, by simp, by simp [hb, hkeys]⟩

/-- **A list that is there**: the empty one becomes nil, any other one the list of its keys. -/
theorem allowedClients_list {values : List Bytes} {allowed : Option (List Bytes)}
    (h : allowedClients (.list values) = .ok allowed) :
    (values = [] ∧ allowed = none) ∨
      (values ≠ [] ∧ ∃ keys, allowed = some keys ∧ values.map hexDecode = keys.map some) := by
  change convertAllowed none values = .ok allowed at h
  cases values with
  | nil =>
    cases h
    exact .inl ⟨rfl, rfl⟩
  | cons ks rest =>
    rw [convertAllowed] at h
    split at h
    · cases h
    · rename_i b hb
      split at h
      · cases h
      · obtain ⟨keys, rfl, hkeys⟩ := convertAllowed_ok h
        exact .inr ⟨by simp, b :: keys, by simp, by simp [hb, hkeys]⟩

/-! ## Enforcement -/

/-- The static key that `ProcessClientHello` authenticates, as `ClientStaticPub` returns it. -/
def authenticatedKey (P : Primitives) (srv : ServerKeys) (a : Arrival) : Bytes :=
  (processClientHello P srv.obfCfg (newServerHandshake P srv.priv srv.pub srv.allowed a.ephPriv)
    a.hello a.procNow a.coins a.draws).1.clientStaticPub

variable {P : Primitives} {srv : ServerKeys}

theorem authenticatedKey_mem {a : Arrival} (h : Genuine P srv a) {keys : List Bytes}
    (hkeys : srv.allowed = some keys) : authenticatedKey P srv a ∈ keys := by
  obtain ⟨s', acc, hproc⟩ := h
  obtain ⟨hello, resp, -, -, hfields, -, -⟩ := processClientHello_ok.mp hproc
  obtain ⟨o, -, hauth, -, rfl⟩ := ServerHandshake.processFields_ok.mp hfields
  rw [authenticatedKey, hproc]
  exact (authenticate_ok.mp hauth).2.2 keys hkeys

variable (P) in
/-- Each of the arriving hellos that is accepted authenticates a key on the list. -/
def Enforced (srv : ServerKeys) (values : List Bytes) (cache : Cache Bytes) (as : List Arrival) :
    Prop :=
  ∀ a ∈ accepted P srv cache as, ∃ value ∈ values, hexDecode value = some (authenticatedKey P srv a)

theorem accepted_singleton (cache : Cache Bytes) {a : Arrival} (h : Genuine P srv a)
    (hnew : cache.live (replayKey P a.hello) a.seenNow = false) :
    accepted P srv cache [a] = [a] := by
  obtain ⟨s', acc, hproc⟩ := h
  have hok : (handleClient P srv cache a).1 = .ok acc := by
    simp [handleClient, Cache.seenOrAdd, hnew, hproc]
  simp [accepted, hok]

/-- A server without a list accepts a client that knows its public key. -/
theorem exists_genuine (hP : P.Lawful) {priv pub : Bytes} {obfCfg : ObfuscationConfig}
    (hpriv : priv.length = keySize) (hpub : pub = P.x25519Base priv)
    (hobf : 0 ≤ obfCfg.s2Min ∧ obfCfg.s2Max < 2 ^ 63) :
    ∃ a, Genuine P ⟨priv, pub, none, obfCfg⟩ a := by
  set key : Bytes := List.replicate keySize 0 with hkey
  have hlen : key.length = keySize := List.length_replicate
  have hpeers : Peers P (newClientHandshake P pub (newKeypair P key) key [] (List.replicate 32 0))
      (newServerHandshake P priv pub none key) :=
    ⟨⟨hlen, rfl⟩, ⟨hlen, rfl⟩, rfl, List.length_replicate, ⟨hpriv, hpub⟩, ⟨hlen, rfl⟩, rfl, nofun⟩
  obtain ⟨hello, tmpCipher, -, hb, -⟩ := hpeers.accepts hP (unix 0)
  have hclock : 0 ≤ 0 + 30 * second ∧ 0 ≤ 0 + 30 * second := by decide
  have hpre : ([] : Bytes).length ≤ 255 := by decide
  obtain ⟨s', acc, -, -, -, hproc, -⟩ := hpeers.completes hP hclock hb defaultObfuscationConfig hobf
    hpre [] [] ⟨0, fun _ => 0, 0, fun _ => 0⟩
  exact ⟨⟨_, 0, 0, key, [], ⟨0, fun _ => 0, 0, fun _ => 0⟩⟩, s', acc, hproc⟩

/-- **When the list is enforced**: for every list with which the server starts and every sequence of
hellos, exactly when the list is not empty or a server without a list would accept none of them. So
for a server with a key pair of its own it is enforced for all sequences exactly when it is not
empty. -/
theorem enforced_iff (P : Primitives) (priv pub : Bytes) (obfCfg : ObfuscationConfig)
    {values : List Bytes} {allowed : Option (List Bytes)}
    (hstart : allowedClients (.list values) = .ok allowed) :
    (∀ cache as, Enforced P ⟨priv, pub, allowed, obfCfg⟩ values cache as ↔
      values ≠ [] ∨ accepted P ⟨priv, pub, none, obfCfg⟩ cache as = []) ∧
    (P.Lawful → priv.length = keySize → pub = P.x25519Base priv →
      0 ≤ obfCfg.s2Min ∧ obfCfg.s2Max < 2 ^ 63 →
        ((∀ cache as, Enforced P ⟨priv, pub, allowed, obfCfg⟩ values cache as) ↔ values ≠ [])) := by
  have henforced : values ≠ [] → ∀ cache as,
      Enforced P ⟨priv, pub, allowed, obfCfg⟩ values cache as := by
    intro hne cache as a ha
    obtain ⟨rfl, -⟩ | ⟨-, keys, rfl, hkeys⟩ := allowedClients_list hstart
    · exact absurd rfl hne
    · have hmem := authenticatedKey_mem (genuine_of_mem_accepted ha).2 rfl
      have hsome := List.mem_map_of_mem (f := some) hmem
      rw [← hkeys] at hsome
      exact List.mem_map.mp hsome
  have hempty : values = [] → ∀ cache as, Enforced P ⟨priv, pub, allowed, obfCfg⟩ values cache as ↔
      accepted P ⟨priv, pub, none, obfCfg⟩ cache as = [] := by
    rintro rfl cache as
    obtain ⟨-, rfl⟩ | ⟨hne, -⟩ := allowedClients_list hstart
    · simp [Enforced, List.eq_nil_iff_forall_not_mem]
    · exact absurd rfl hne
  constructor
  · intro cache as
    by_cases hvalues : values = []
    · rw [hempty hvalues]
      simp [hvalues]
    · exact iff_of_true (henforced hvalues cache as) (.inl hvalues)
  · intro hP hpriv hpub hobf
    refine ⟨fun hall hvalues => ?_, henforced⟩
    obtain ⟨a, ha⟩ := exists_genuine hP hpriv hpub hobf
    have hone := accepted_singleton newHandshakeReplayCache ha rfl
    rw [(hempty hvalues _ _).mp (hall newHandshakeReplayCache [a])] at hone
    cases hone

/-- The public key of the client behind `sampleHello`, and its hexadecimal form. -/
def sampleClient : Bytes := (newKeypair .sample (List.replicate keySize 2)).pub

def sampleClientHex : Bytes := (List.replicate 32 (ascii "02")).flatten

/-- With its key on the list the client is accepted, and the list is enforced. -/
theorem enforced_sample :
    allowedClients (.list [sampleClientHex]) = .ok (some [sampleClient]) ∧
    (accepted .sample { sampleServer with allowed := some [sampleClient] } newHandshakeReplayCache
      [arrivesAt 1000 sampleHello]).length = 1 ∧
    Enforced .sample { sampleServer with allowed := some [sampleClient] } [sampleClientHex]
      newHandshakeReplayCache [arrivesAt 1000 sampleHello] ∧
    ∀ cache as, Enforced .sample { sampleServer with allowed := some [sampleClient] }
      [sampleClientHex] cache as := by
  have hdecode : hexDecode sampleClientHex = some sampleClient := by decide +kernel
  have hlen : sampleClient.length = keySize := by decide +kernel
  have hstart : allowedClients (.list [sampleClientHex]) = .ok (some [sampleClient]) := by
    simp [allowedClients, decodeStrings, convertAllowed, hdecode, hlen]
  obtain ⟨heach, hall⟩ := enforced_iff .sample sampleServer.priv sampleServer.pub sampleServer.obfCfg
    hstart
  exact ⟨hstart, by decide +kernel, (heach _ _).mpr (.inl (by simp)),
    (hall sample_lawful rfl rfl (by decide)).mpr (by simp)⟩

/-- With an empty list everybody is accepted. -/
theorem not_enforced_empty : allowedClients (.list []) = .ok none ∧
    ¬Enforced .sample { sampleServer with allowed := none } [] newHandshakeReplayCache
      [arrivesAt 1000 sampleHello] := by
  refine ⟨rfl, fun h => ?_⟩
  have hone : (accepted .sample { sampleServer with allowed := none } newHandshakeReplayCache
      [arrivesAt 1000 sampleHello]).length = 1 := by decide +kernel
  obtain ⟨a, ha⟩ := List.exists_mem_of_length_pos (hone ▸ Nat.one_pos)
  obtain ⟨value, hvalue, -⟩ := h a ha
  cases hvalue

end ObsidianVPN.Server
