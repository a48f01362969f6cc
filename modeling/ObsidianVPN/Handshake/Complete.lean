import ObsidianVPN.Handshake.Wire

/-!
# Completeness of the handshake

A client and a server with matching keys finish the handshake, and end with the same session keys
and with crossed framers.

* `Peers`: well-formed key pairs on both sides, the client pins the server's key and the server
  admits the client's;
* `Peers.accepts`: the server accepts the fields of the client's hello while the clocks are close;
* `Peers.confirms`: the client accepts the server's answer;
* **`handshake_complete`**: the three functions of the source run through, for all padding.
-/

namespace ObsidianVPN.Handshake

open ByteStr GoString Protocol

/-! ## The cuts of the plaintexts -/

theorem splitIdentity_cat {magic staticPub ts proof : Bytes} (h1 : magic.length = 16)
    (h2 : staticPub.length = keySize) (h3 : ts.length = 8) (h4 : proof.length = 32) :
    Primitives.splitIdentity [magic, staticPub, ts, proof].flatten =
      some ⟨magic, staticPub, ts, proof⟩ := by
  have hcat : [magic, staticPub, ts, proof].flatten =
      magic ++ (staticPub ++ (ts ++ (proof ++ []))) := by
    simp
  have s1 : slice (magic ++ (staticPub ++ (ts ++ (proof ++ [])))) 16 keySize = staticPub :=
    slice_middle _ _ _ h1.symm h2.symm
  have s2 : slice (magic ++ (staticPub ++ (ts ++ (proof ++ [])))) (16 + keySize) 8 = ts := by
    rw [← List.append_assoc magic]
    exact slice_middle _ _ _ (by simp [h1, h2]) h3.symm
  have s3 : slice (magic ++ (staticPub ++ (ts ++ (proof ++ [])))) (16 + keySize + 8) 32 = proof := by
    rw [← List.append_assoc magic, ← List.append_assoc _ ts]
    exact slice_middle _ _ _ (by simp [h1, h2, h3, Nat.add_assoc]) h4.symm
  rw [hcat, Primitives.splitIdentity, if_neg (by simp [h1, h2, h3, h4, Nat.add_assoc]),
    slice_zero_append _ _ _ h1.symm, s1, s2, s3]

theorem splitConfirm_cat {magic sessionID proof : Bytes} (h1 : magic.length = 16)
    (h2 : sessionID.length = sessionIDSize) (h3 : proof.length = 32) :
    Primitives.splitConfirm [magic, sessionID, proof].flatten = some ⟨magic, sessionID, proof⟩ := by
  have hcat : [magic, sessionID, proof].flatten = magic ++ (sessionID ++ proof) := by simp
  have s1 : slice (magic ++ (sessionID ++ proof)) 16 sessionIDSize = sessionID :=
    slice_middle _ _ _ h1.symm h2.symm
  have s2 : (magic ++ (sessionID ++ proof)).drop (16 + sessionIDSize) = proof := by
    rw [← List.append_assoc]
    exact List.drop_left' (by simp [h1, h2])
  rw [hcat, Primitives.splitConfirm, if_neg (by simp [h1, h2, h3, Nat.add_assoc]),
    slice_zero_append _ _ _ h1.symm, s1, s2]

/-! ## Matching parties -/

/-- The two sides of a handshake that should succeed. -/
structure Peers (P : Primitives) (c : ClientHandshake Bytes) (s : ServerHandshake Bytes) :
    Prop where
  clientStatic : c.staticKeypair.priv.length = keySize ∧
    c.staticKeypair.pub = P.x25519Base c.staticKeypair.priv
  clientEph : c.ephemeralKeypair.priv.length = keySize ∧
    c.ephemeralKeypair.pub = P.x25519Base c.ephemeralKeypair.priv
  clientMlkem : c.mlkemEncPub = P.mlkemEncapsulationKey c.mlkemDecKey
  salt : c.salt.length = 32
  serverStatic : s.staticPriv.length = keySize ∧ s.staticPub = P.x25519Base s.staticPriv
  serverEph : s.ephKeypair.priv.length = keySize ∧
    s.ephKeypair.pub = P.x25519Base s.ephKeypair.priv
  pinned : c.serverStaticPub = s.staticPub
  admitted : ∀ allowed, s.allowedClients = some allowed → c.staticKeypair.pub ∈ allowed

namespace Peers

variable {P : Primitives} {c : ClientHandshake Bytes} {s : ServerHandshake Bytes}

/-- The client's hello is well formed and the server opens it; it authenticates it while the clocks
are at most 30 s apart. -/
theorem accepts (h : Peers P c s) (hP : P.Lawful) (now : ℤ) :
    ∃ hello tmpCipher o, c.buildIdentity P.suite now = .ok (hello, tmpCipher) ∧
      hello.WellSized ∧ hello.encIdentity.length = 104 ∧
      hello.ephPub = c.ephemeralKeypair.pub ∧ hello.mlkemPub = c.mlkemEncPub ∧
      hello.salt = c.salt ∧ s.openIdentity P.suite hello = .ok o ∧
      o.identity.staticPub = c.staticKeypair.pub ∧
      P.dhSafe c.ephemeralKeypair.priv c.serverStaticPub = .ok o.shared ∧
      ∀ now' : ℤ, now' - now ≤ 30 → now - now' ≤ 30 →
        s.authenticate P.suite hello o now' = .ok () := by
  obtain ⟨shared, hcs, hsc⟩ := dhSafe_comm hP h.clientEph.1 h.serverStatic.1
  obtain ⟨staticShared, hcs', hsc'⟩ := dhSafe_comm hP h.clientStatic.1 h.serverStatic.1
  rw [← h.serverStatic.2, ← h.pinned] at hcs hcs'
  rw [← h.clientEph.2] at hsc
  rw [← h.clientStatic.2] at hsc'
  set tmpKeys := P.deriveKeys shared c.salt c.ephemeralKeypair.pub c.serverStaticPub with htmp
  set proof := clientProof P.suite staticShared tmpKeys.dynamicMagic c.ephemeralKeypair.pub
    c.mlkemEncPub c.salt (P.suite.putTime now) with hproof
  set aad := P.suite.cat [c.ephemeralKeypair.pub, c.mlkemEncPub] with haad
  have hlen : (c.identity P.suite tmpKeys staticShared (P.suite.putTime now)).length = 88 := by
    simp [ClientHandshake.identity, Primitives.suite, clientProof, length_hmacSHA256 hP,
      (length_deriveKeys hP _ _ _ _).1, htmp, h.clientStatic.2,
      hP.length_x25519Base _ h.clientStatic.1, keySize]
  have hsealed : (P.aeadSeal tmpKeys.clientKey (Primitives.nonceAt tmpKeys.clientIV 0)
      (c.identity P.suite tmpKeys staticShared (P.suite.putTime now)) aad).length = 104 :=
    (hP.length_aeadSeal _ _ _ _).trans (congrArg (· + tagSize) hlen)
  have hsplit : P.suite.splitIdentity (c.identity P.suite tmpKeys staticShared
      (P.suite.putTime now)) =
        some ⟨tmpKeys.dynamicMagic, c.staticKeypair.pub, P.suite.putTime now, proof⟩ := by
    refine splitIdentity_cat (length_deriveKeys hP _ _ _ _).1 ?_ (length_putBE _ _)
      (length_hmacSHA256 hP _ _)
    rw [h.clientStatic.2, hP.length_x25519Base _ h.clientStatic.1]
  refine ⟨_, _, ⟨shared, tmpKeys, ⟨tmpKeys.dynamicMagic, c.staticKeypair.pub, P.suite.putTime now,
    proof⟩⟩, buildIdentity_ok.mpr ⟨shared, staticShared, hcs, hcs', rfl⟩,
    ⟨?_, ?_, h.salt, lt_of_eq_of_lt hsealed (by decide)⟩, hsealed, rfl, rfl, rfl, ?_, rfl, hcs, ?_⟩
  · rw [h.clientEph.2, hP.length_x25519Base _ h.clientEph.1]
  · rw [h.clientMlkem, hP.length_mlkemEncapsulationKey]
  · refine openIdentity_ok.mpr ⟨hsc, ?_, rfl, _, ?_, hsplit⟩
    · rw [htmp, h.pinned]; rfl
    · exact hP.aeadOpen_aeadSeal _ _ _ _
  · intro now' h1 h2
    refine authenticate_ok.mpr ⟨?_, ⟨staticShared, hsc', rfl⟩, h.admitted⟩
    rw [wrap64_sub_getTime_putTime, wrap64_of_bounds (by omega) (by omega), abs64, replayWindowSec]
    split
    · rw [wrap64_of_bounds (by omega) (by omega)]; omega
    · omega

/-- The server's answer to a hello with the client's values is well formed, and the client accepts
it with the same session keys and with the ciphers and header keys of the server exchanged. -/
theorem confirms (h : Peers P c s) (hP : P.Lawful) {hello : ClientHello Bytes} {shared : Bytes}
    (he : hello.ephPub = c.ephemeralKeypair.pub) (hm : hello.mlkemPub = c.mlkemEncPub)
    (hsalt : hello.salt = c.salt)
    (hshared : P.dhSafe c.ephemeralKeypair.priv c.serverStaticPub = .ok shared) (coins : Bytes) :
    ∃ r, s.respond P.suite hello shared coins = .ok r ∧ r.hello.WellSized ∧
      c.processFields P.suite r.hello =
        ({ c with sessionKeys := some r.keys, ephemeralKeypair := zeroKeypair P.suite },
          .ok ⟨r.framer.dec, r.framer.enc, r.framer.decHeaderKey, r.framer.encHeaderKey⟩) ∧
      r.framer.enc.counter = 0 ∧ r.framer.dec.counter = 0 := by
  obtain ⟨sharedFinal, hcs, hsc⟩ := dhSafe_comm hP h.clientEph.1 h.serverEph.1
  rw [← h.serverEph.2] at hcs
  rw [← h.clientEph.2, ← he] at hsc
  have hencap : P.encapsulateMLKEM hello.mlkemPub coins =
      .ok (P.mlkemEncapsulate hello.mlkemPub coins) := by
    rw [Primitives.encapsulateMLKEM, hm, h.clientMlkem,
      if_neg (not_not.mpr (hP.length_mlkemEncapsulationKey _)),
      if_pos (hP.mlkemParses_encapsulationKey _)]
  have hdecap : P.decapsulateMLKEM c.mlkemDecKey (P.mlkemEncapsulate hello.mlkemPub coins).2 =
      .ok (P.mlkemEncapsulate hello.mlkemPub coins).1 := by
    rw [Primitives.decapsulateMLKEM, if_neg (not_not.mpr (hP.length_mlkemCiphertext _ _)), hm,
      h.clientMlkem, hP.mlkemDecapsulate_encapsulate]
  set kem := P.mlkemEncapsulate hello.mlkemPub coins with hkem
  set keys := P.deriveKeys (P.deriveHybridSecret sharedFinal kem.1 hello.salt) hello.salt
    hello.ephPub s.ephKeypair.pub with hkeys
  refine ⟨_, respond_ok.mpr ⟨kem.1, kem.2, sharedFinal, hencap, hsc, rfl⟩,
    ⟨?_, hP.length_mlkemCiphertext _ _, ?_⟩, ?_, rfl, rfl⟩
  · exact (congrArg List.length h.serverEph.2).trans (hP.length_x25519Base _ h.serverEph.1)
  · simp only [Cipher.encrypt]
    exact lt_of_eq_of_lt (hP.length_aeadSeal _ _ _ _) (by
      simp [Primitives.suite, serverStaticProof, length_hmacSHA256 hP,
        length_deriveKeys hP, sessionIDSize, tagSize])
  · refine ClientHandshake.processFields_ok.mpr ⟨keys, ?_, ?_, rfl, rfl⟩
    · refine deriveSession_ok.mpr ⟨sharedFinal, kem.1, hcs, hdecap, ?_⟩
      rw [hkeys, he, hsalt]; rfl
    · refine checkConfirm_ok.mpr ⟨_, _, shared, hP.aeadOpen_aeadSeal _ _ _ _,
        splitConfirm_cat (length_deriveKeys hP _ _ _ _).1 (length_deriveKeys hP _ _ _ _).2.1
          (length_hmacSHA256 hP _ _), rfl, rfl, hshared, ?_⟩
      rw [← he, ← hsalt]; rfl

end Peers

/-! ## The whole handshake -/

section Complete

variable {P : Primitives}

/-- **The server accepts the client's hello** behind any pre-padding and before any trailing bytes,
and the client accepts the answer. -/
theorem Peers.completes {c : ClientHandshake Bytes} {s : ServerHandshake Bytes} (h : Peers P c s)
    (hP : P.Lawful) {tc ts : ℕ} (hclock : tc ≤ ts + 30 * second ∧ ts ≤ tc + 30 * second)
    {hello : ClientHello Bytes} {tmpCipher : Cipher Bytes}
    (hb : c.buildIdentity P.suite (unix tc) = .ok (hello, tmpCipher)) (ccfg : ObfuscationConfig)
    {scfg : ObfuscationConfig} (hscfg : 0 ≤ scfg.s2Min ∧ scfg.s2Max < 2 ^ 63) {prePad : Bytes}
    (hpre : prePad.length ≤ 255) (trailer coins : Bytes) (r : PadDraws) :
    ∃ s' acc c' framer keys,
      processClientHello P scfg s (encodeClientHello prePad hello trailer) ts coins r =
        (s', .ok acc) ∧
      processServerHello P ccfg c acc.hello = (c', .ok framer) ∧
      s'.sessionKeys = some keys ∧ c'.sessionKeys = some keys ∧
      s'.clientStaticPub = c.staticKeypair.pub ∧
      Crossed framer acc.framer ∧ Crossed acc.framer framer ∧
      framer.Initial ∧ acc.framer.Initial := by
  obtain ⟨hello', tmp', o, hb', hsize, -, heph, hmlkem, hsalt, hopen, hpub, hshared, hauth⟩ :=
    h.accepts hP (unix tc)
  obtain ⟨rfl, rfl⟩ := Prod.mk.inj (Except.ok.inj (hb'.symm.trans hb))
  obtain ⟨resp, hresp, hsize', hclient, henc, hdec⟩ := h.confirms hP heph hmlkem hsalt hshared coins
  obtain ⟨s2, hs2, -⟩ := randomPadding_ok hscfg r
  have hserver := ServerHandshake.processFields_ok.mpr ⟨o, hopen,
    hauth (unix ts) (unix_sub_le hclock.2) (unix_sub_le hclock.1), hresp, rfl⟩
  have hproc := processClientHello_ok.mpr
    ⟨hello', resp, s2, parseClientHello_encode hsize hpre trailer, hserver, hs2, rfl⟩
  have hdone := (processServerHello_ok (f := protectedFramer ccfg _)).mpr ⟨resp.hello, _,
    parseServerHello_encode hsize' (length_prePadding_le scfg.prePadMax r)
      (putBE 2 s2.length ++ s2), hclient, rfl⟩
  exact ⟨_, _, _, _, resp.keys, hproc, hdone, rfl, rfl, hpub, ⟨rfl, rfl, rfl, rfl⟩,
    ⟨rfl, rfl, rfl, rfl⟩, ⟨hdec, henc, rfl, rfl⟩, ⟨henc, hdec, rfl, rfl⟩⟩

/-- **Completeness of the handshake.** For all key pairs, ephemeral keys, salts, coins, padding
configurations and draws, and clocks at most 30 s apart, each side accepts the other's message; both
hold the same session keys, their framers are crossed and unused, and the server knows the client's
static key. -/
theorem handshake_complete (hP : P.Lawful)
    {clientPriv clientEph serverPriv serverEph mlkemDecKey salt : Bytes}
    (hc : clientPriv.length = keySize) (hce : clientEph.length = keySize)
    (hs : serverPriv.length = keySize) (hse : serverEph.length = keySize)
    (hsalt : salt.length = 32) {allowed : Option (List Bytes)}
    (hallowed : ∀ l, allowed = some l → P.x25519Base clientPriv ∈ l)
    {ccfg scfg : ObfuscationConfig} (hccfg : 0 ≤ ccfg.s1Min ∧ ccfg.s1Max < 2 ^ 63)
    (hscfg : 0 ≤ scfg.s2Min ∧ scfg.s2Max < 2 ^ 63)
    {tc ts : ℕ} (hclock : tc ≤ ts + 30 * second ∧ ts ≤ tc + 30 * second) (rc rs : PadDraws)
    (coins : Bytes) :
    let c := newClientHandshake P (P.x25519Base serverPriv) (newKeypair P clientPriv) clientEph
      mlkemDecKey salt
    let s := newServerHandshake P serverPriv (P.x25519Base serverPriv) allowed serverEph
    ∃ hello tmpCipher s' acc c' framer keys,
      buildHello P ccfg c tc rc = .ok (hello, tmpCipher) ∧
      processClientHello P scfg s hello ts coins rs = (s', .ok acc) ∧
      processServerHello P ccfg c acc.hello = (c', .ok framer) ∧
      s'.sessionKeys = some keys ∧ c'.sessionKeys = some keys ∧
      s'.clientStaticPub = P.x25519Base clientPriv ∧
      Crossed framer acc.framer ∧ Crossed acc.framer framer ∧
      framer.Initial ∧ acc.framer.Initial := by
  intro c s
  have hpeers : Peers P c s := ⟨⟨hc, rfl⟩, ⟨hce, rfl⟩, rfl, hsalt, ⟨hs, rfl⟩, ⟨hse, rfl⟩, rfl, hallowed⟩
  obtain ⟨hello, tmpCipher, _, hb, _⟩ := hpeers.accepts hP (unix tc)
  obtain ⟨s1, hs1, -⟩ := randomPadding_ok hccfg rc
  obtain ⟨s', acc, c', framer, keys, hrest⟩ := hpeers.completes hP hclock hb ccfg hscfg
    (length_prePadding_le ccfg.prePadMax rc) (putBE 2 s1.length ++ s1) coins rs
  exact ⟨_, tmpCipher, s', acc, c', framer, keys,
    buildHello_ok.mpr ⟨hello, tmpCipher, s1, hb, hs1, rfl⟩, hrest⟩

theorem handshake_complete_sample :
    let key := List.replicate keySize (7 : UInt8)
    let r : PadDraws := ⟨5, fun _ => 1, 200, fun _ => 2⟩
    let c := newClientHandshake .sample key (newKeypair .sample key) key [3] (List.replicate 32 4)
    let s := newServerHandshake .sample key key (some [key]) key
    ∃ hello tmpCipher s' acc c' framer keys,
      buildHello .sample defaultObfuscationConfig c (1000 * second) r = .ok (hello, tmpCipher) ∧
      processClientHello .sample defaultObfuscationConfig s hello (1030 * second) [9] r =
        (s', .ok acc) ∧
      processServerHello .sample defaultObfuscationConfig c acc.hello = (c', .ok framer) ∧
      s'.sessionKeys = some keys ∧ c'.sessionKeys = some keys ∧ s'.clientStaticPub = key ∧
      Crossed framer acc.framer ∧ Crossed acc.framer framer ∧
      framer.Initial ∧ acc.framer.Initial :=
  handshake_complete sample_lawful rfl rfl rfl rfl rfl (by simp [Primitives.sample])
    (by decide) (by decide) (by decide) _ _ _

end Complete

end ObsidianVPN.Handshake
