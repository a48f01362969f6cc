import ObsidianVPN.Handshake.Wire
import ObsidianVPN.Lib.Runs
import ObsidianVPN.Protocol.Tunnel

/-!
# Sessions and their nonces

A session is a completed handshake followed by frames in both directions. Four ciphers encrypt in
it: the client's for its identity, the server's for the confirmation, and those of the two framers.

* `handshake`: the three functions of the handshake in a row;
* `Session.run`: the actions of the two parties after it; `Session.seals`: the (key, nonce) pairs of
  all `Seal` calls;
* **`seals_nodup_iff`**: the pairs differ exactly as long as the server seals no frame, since its
  framer starts again at the nonce of the confirmation.
-/

namespace ObsidianVPN.Handshake

open ByteStr Protocol Runs

/-! ## The handshake -/

/-- The results of a completed handshake. -/
structure Completed where
  tmpCipher : Cipher Bytes
  server : ServerHandshake Bytes
  accepted : Accepted
  client : ClientHandshake Bytes
  framer : StreamFramer

/-- `BuildHello`, `ProcessClientHello` and `ProcessServerHello`. -/
def handshake (P : Primitives) (ccfg scfg : ObfuscationConfig) (c : ClientHandshake Bytes)
    (s : ServerHandshake Bytes) (tc ts : ℕ) (coins : Bytes) (rc rs : PadDraws) : Option Completed :=
  match buildHello P ccfg c tc rc with
  | .error _ => none
  | .ok (hello, tmpCipher) =>
    match processClientHello P scfg s hello ts coins rs with
    | (_, .error _) => none
    | (s', .ok acc) =>
      match processServerHello P ccfg c acc.hello with
      | (_, .error _) => none
      | (c', .ok framer) => some ⟨tmpCipher, s', acc, c', framer⟩

/-- The keys that `DeriveKeys` has returned for the identity and for the two directions differ. -/
def Completed.KeysDistinct (h : Completed) : Prop :=
  [some h.tmpCipher.key, h.client.sessionKeys.map SessionKeys.clientKey,
    h.server.sessionKeys.map SessionKeys.serverKey].Nodup

instance (h : Completed) : Decidable h.KeysDistinct :=
  inferInstanceAs (Decidable (List.Nodup _))

theorem handshake_some {P : Primitives} {ccfg scfg : ObfuscationConfig} {c : ClientHandshake Bytes}
    {s : ServerHandshake Bytes} {tc ts : ℕ} {coins : Bytes} {rc rs : PadDraws} {h : Completed} :
    handshake P ccfg scfg c s tc ts coins rc rs = some h ↔ ∃ hello,
      buildHello P ccfg c tc rc = .ok (hello, h.tmpCipher) ∧
      processClientHello P scfg s hello ts coins rs = (h.server, .ok h.accepted) ∧
      processServerHello P ccfg c h.accepted.hello = (h.client, .ok h.framer) := by
  unfold handshake
  constructor
  · intro hh
    split at hh
    · exact absurd hh (by simp)
    rename_i hello tmpCipher hb
    split at hh
    · exact absurd hh (by simp)
    rename_i s' acc hs
    split at hh
    · exact absurd hh (by simp)
    rename_i c' framer hc
    obtain rfl := Option.some.inj hh
    exact ⟨hello, hb, hs, hc⟩
  · rintro ⟨hello, hb, hs, hc⟩
    simp only [hb, hs, hc]

/-- **The encrypting ciphers after the handshake**: two have sealed one message, and the cipher of
the server's framer is the one of the confirmation before its message. -/
theorem handshake_ciphers {P : Primitives} {ccfg scfg : ObfuscationConfig}
    {c : ClientHandshake Bytes} {s : ServerHandshake Bytes} {tc ts : ℕ} {coins : Bytes}
    {rc rs : PadDraws} {h : Completed} (hP : P.Lawful)
    (hh : handshake P ccfg scfg c s tc ts coins rc rs = some h) :
    ∃ kc ks, h.tmpCipher.counter = 1 ∧
      h.client.sessionKeys = some kc ∧ h.framer.encCipher = newCipher kc.clientKey kc.clientIV ∧
      h.server.sessionKeys = some ks ∧
      h.accepted.confirmCipher = (newCipher ks.serverKey ks.serverIV).next ∧
      h.accepted.framer.encCipher = newCipher ks.serverKey ks.serverIV ∧
      kc.clientIV.length = nonceSize ∧ ks.serverIV.length = nonceSize := by
  obtain ⟨hello, hb, hs, hc⟩ := handshake_some.mp hh
  obtain ⟨_, tmpCipher, _, hident, -, hout⟩ := buildHello_ok.mp hb
  obtain ⟨_, _, -, -, hid⟩ := buildIdentity_ok.mp hident
  obtain ⟨_, resp, _, -, hfields, -, hacc⟩ := processClientHello_ok.mp hs
  obtain ⟨o, -, -, hresp, hserver⟩ := ServerHandshake.processFields_ok.mp hfields
  obtain ⟨_, _, _, -, -, hr⟩ := respond_ok.mp hresp
  obtain ⟨_, k, -, hcfields, hframer⟩ := processServerHello_ok.mp hc
  obtain ⟨kc, hderive, -, hk, hclient⟩ := ClientHandshake.processFields_ok.mp hcfields
  obtain ⟨_, _, -, -, hkc⟩ := deriveSession_ok.mp hderive
  have htmp : h.tmpCipher.counter = 1 := by
    rw [(Prod.mk.inj hout).2, (Prod.mk.inj hid).2]; rfl
  have hivc : kc.clientIV.length = nonceSize := by
    rw [hkc]; exact (length_deriveKeys hP _ _ _ _).2.2.1
  have hivs : resp.keys.serverIV.length = nonceSize := by
    rw [hr]; exact (length_deriveKeys hP _ _ _ _).2.2.2
  exact ⟨kc, resp.keys, htmp, by rw [hclient], by rw [hframer, hk]; rfl, by rw [hserver],
    by rw [hacc, hr]; rfl, by rw [hacc, hr]; rfl, hivc, hivs⟩

/-! ## Actions of the two parties -/

inductive Party where
  | client
  | server
  deriving DecidableEq, Repr

/-- The objects of a session that encrypt. -/
structure Session where
  tmpCipher : Cipher Bytes
  confirmCipher : Cipher Bytes
  client : Tunnel
  server : Tunnel

def Session.party (σ : Session) : Party → Tunnel
  | .client => σ.client
  | .server => σ.server

section Run

variable (P : Primitives)

def Session.step (σ : Session) : Party × Action → Session
  | (.client, a) => { σ with client := a.run P σ.client }
  | (.server, a) => { σ with server := a.run P σ.server }

def Session.run (σ : Session) (ops : List (Party × Action)) : Session := ops.foldl (Session.step P) σ

/-- The (key, nonce) pairs of all `Seal` calls of the session so far. -/
def Session.seals (σ : Session) : List (Bytes × Bytes) :=
  σ.tmpCipher.seals P.suite ++ σ.confirmCipher.seals P.suite ++
    σ.client.framer.encCipher.seals P.suite ++ σ.server.framer.encCipher.seals P.suite

end Run

/-- The operation is one of the given party, and reaches `Seal`. -/
def Session.Sends (σ : Session) (p : Party) (op : Party × Action) : Prop :=
  op.1 = p ∧ op.2.reachesSeal (σ.party p) = true

instance (σ : Session) (p : Party) (op : Party × Action) : Decidable (σ.Sends p op) :=
  inferInstanceAs (Decidable (_ ∧ _))

section Nonces

variable {P : Primitives}

@[simp] theorem run_concat (σ : Session) (ops : List (Party × Action)) (op : Party × Action) :
    σ.run P (ops ++ [op]) = (σ.run P ops).step P op := by
  simp [Session.run]

theorem step_encCipher (σ : Session) (p : Party) (op : Party × Action) :
    ((σ.step P op).party p).framer.encCipher =
      if σ.Sends p op then (σ.party p).framer.encCipher.next else (σ.party p).framer.encCipher := by
  obtain ⟨q, a⟩ := op
  cases p <;> cases q <;> simp [Session.step, Session.party, Session.Sends, Action.run_encCipher]

theorem run_tmpCipher (σ : Session) (ops : List (Party × Action)) :
    (σ.run P ops).tmpCipher = σ.tmpCipher ∧ (σ.run P ops).confirmCipher = σ.confirmCipher := by
  induction ops using List.reverseRecOn with
  | nil => exact ⟨rfl, rfl⟩
  | append_singleton ops op ih =>
    obtain ⟨_ | _, a⟩ := op <;> simpa [Session.step] using ih

/-- **The framer's cipher over a run**: key and IV stay, and the counter moves exactly when the party
sends. -/
theorem run_encCipher (σ : Session) (p : Party) (ops : List (Party × Action)) :
    ∃ n ≤ ops.length, ((σ.run P ops).party p).framer.encCipher =
        { (σ.party p).framer.encCipher with
          counter := (σ.party p).framer.encCipher.counter + n } ∧
      (n = 0 ↔ EachStep (fun pre op => ¬(σ.run P pre).Sends p op) ops) := by
  induction ops using List.reverseRecOn with
  | nil => exact ⟨0, le_rfl, rfl, iff_of_true rfl (eachStep_nil _)⟩
  | append_singleton ops op ih =>
    obtain ⟨n, hn, hcipher, hzero⟩ := ih
    rw [run_concat, step_encCipher, hcipher, eachStep_concat, ← hzero]
    by_cases hsend : (σ.run P ops).Sends p op
    · exact ⟨n + 1, by simpa using hn, by rw [if_pos hsend]; rfl,
        iff_of_false n.succ_ne_zero fun h => h.2 hsend⟩
    · exact ⟨n, by simp only [List.length_append]; omega, by rw [if_neg hsend],
        by simp [hsend]⟩

/-! ## Pairs of keys and nonces -/

theorem key_of_mem_seals {c : Cipher Bytes} {q : Bytes × Bytes} (h : q ∈ c.seals P.suite) :
    q.1 = c.key := by
  obtain ⟨_, _, rfl⟩ := List.mem_map.mp h
  rfl

theorem disjoint_seals {a b : Cipher Bytes} (h : a.key ≠ b.key) :
    List.Disjoint (a.seals P.suite) (b.seals P.suite) := fun _ ha hb =>
  h ((key_of_mem_seals ha).symm.trans (key_of_mem_seals hb))

/-- One cipher repeats no nonce. -/
theorem nodup_seals {c : Cipher Bytes} (hiv : c.baseIV.length = nonceSize) (hc : c.counter ≤ 2 ^ 64) :
    (c.seals P.suite).Nodup := by
  refine List.Nodup.map_on ?_ List.nodup_range
  intro i hi j hj hij
  exact nonceAt_injOn hiv (by have := List.mem_range.mp hi; omega)
    (by have := List.mem_range.mp hj; omega) (Prod.mk.inj hij).2

theorem seals_eq_singleton {c : Cipher Bytes} (h : c.counter = 1) :
    c.seals P.suite = [(c.key, P.suite.nonceAt c.baseIV 0)] := by
  simp [Cipher.seals, h]

theorem zero_mem_seals {c : Cipher Bytes} (h : c.counter ≠ 0) :
    (c.key, P.suite.nonceAt c.baseIV 0) ∈ c.seals P.suite :=
  List.mem_map.mpr ⟨0, List.mem_range.mpr (Nat.pos_of_ne_zero h), rfl⟩

/-- **Nonce discipline of a session.** After any completed handshake whose derived keys differ, and
any fewer than `2 ^ 64` actions of the two parties, no two `Seal` calls have used the same key and
nonce exactly when no action of the server has reached `Seal`. -/
theorem seals_nodup_iff (hP : P.Lawful) {ccfg scfg : ObfuscationConfig} {c : ClientHandshake Bytes}
    {s : ServerHandshake Bytes} {tc ts : ℕ} {coins : Bytes} {rc rs : PadDraws} {h : Completed}
    (hh : handshake P ccfg scfg c s tc ts coins rc rs = some h) (hkeys : h.KeysDistinct)
    {client server : Tunnel} (hclient : client.Over h.framer)
    (hserver : server.Over h.accepted.framer) (ops : List (Party × Action))
    (hops : ops.length < 2 ^ 64) :
    let σ : Session := ⟨h.tmpCipher, h.accepted.confirmCipher, client, server⟩
    ((σ.run P ops).seals P).Nodup ↔
      EachStep (fun pre op => ¬(σ.run P pre).Sends .server op) ops := by
  intro σ
  obtain ⟨kc, ks, htmp, hkc, henc, hks, hconf, henc', hivc, hivs⟩ := handshake_ciphers hP hh
  obtain ⟨n, hn, hc, -⟩ := run_encCipher (P := P) σ .client ops
  obtain ⟨m, -, hs, hzero⟩ := run_encCipher (P := P) σ .server ops
  obtain ⟨hrt, hrc⟩ := run_tmpCipher (P := P) σ ops
  have hσc : (σ.party .client).framer.encCipher = newCipher kc.clientKey kc.clientIV := by
    rw [← henc]; exact hclient.encCipher
  have hσs : (σ.party .server).framer.encCipher = newCipher ks.serverKey ks.serverIV := by
    rw [← henc']; exact hserver.encCipher
  rw [hσc] at hc
  rw [hσs] at hs
  simp only [Completed.KeysDistinct, hkc, hks, Option.map_some, List.nodup_cons, List.mem_cons,
    Option.some.injEq, List.not_mem_nil, or_false, not_or, not_false_eq_true, List.nodup_nil,
    and_true] at hkeys
  obtain ⟨⟨htc, hts⟩, hcs⟩ := hkeys
  rw [← hzero, Session.seals, hrt, hrc]
  change (_ ++ _ ++ ((σ.run P ops).party .client).framer.encCipher.seals P.suite ++
    ((σ.run P ops).party .server).framer.encCipher.seals P.suite).Nodup ↔ _
  rw [hc, hs, show σ.confirmCipher = h.accepted.confirmCipher from rfl, hconf]
  constructor
  · -- a frame of the server repeats the nonce of the confirmation
    intro hnodup
    by_contra hm
    have hmem : (ks.serverKey, P.suite.nonceAt ks.serverIV 0) ∈
        (newCipher ks.serverKey ks.serverIV).next.seals P.suite := by
      rw [seals_eq_singleton rfl]; exact List.mem_singleton.mpr rfl
    refine (List.nodup_append.mp hnodup).2.2 _ ?_ _ (zero_mem_seals ?_) rfl
    · exact List.mem_append_left _ (List.mem_append_right _ hmem)
    · simpa [newCipher] using hm
  · rintro rfl
    -- three ciphers under different keys, two of them with one message
    have hlast : (newCipher ks.serverKey ks.serverIV).seals P.suite = [] := rfl
    have hnc : n ≤ 2 ^ 64 := by omega
    simp only [Nat.add_zero]
    change (_ ++ (newCipher ks.serverKey ks.serverIV).seals P.suite).Nodup
    rw [hlast, List.append_nil]
    refine List.Nodup.append (List.Nodup.append ?_ ?_ (disjoint_seals hts)) (nodup_seals hivc ?_) ?_
    · rw [show σ.tmpCipher = h.tmpCipher from rfl, seals_eq_singleton htmp]
      exact List.nodup_singleton _
    · rw [seals_eq_singleton rfl]
      exact List.nodup_singleton _
    · simpa [newCipher] using hnc
    · refine List.disjoint_append_left.mpr ⟨disjoint_seals htc, disjoint_seals ?_⟩
      exact fun heq => hcs heq.symm

end Nonces

/-! ## One frame of the server -/

/-- A completed handshake between parties with constant keys. -/
def sampleHandshake : Option Completed :=
  let key (b : UInt8) : Bytes := List.replicate keySize b
  let c := newClientHandshake .sample (key 1) (newKeypair .sample (key 2)) (key 3) [4]
    (List.replicate 32 5)
  let s := newServerHandshake .sample (key 1) (key 1) none (key 6)
  handshake .sample defaultObfuscationConfig defaultObfuscationConfig c s 0 0 [7]
    ⟨0, fun _ => 0, 0, fun _ => 0⟩ ⟨0, fun _ => 0, 0, fun _ => 0⟩

/-- Tunnels with the default padding and without limits on both ends. -/
def sampleSession (h : Completed) : Session :=
  let cfg : TunnelConfig := ⟨0, 0, 0, 32, false, 0, 0⟩
  ⟨h.tmpCipher, h.accepted.confirmCipher, newTunnel h.framer cfg 0 0 false,
    newTunnel h.accepted.framer cfg 0 0 false⟩

/-- A packet of one byte. -/
def samplePacket : Action := .writePacket .data [1] ⟨0, 0, 0, fun _ => 0⟩ 0 none

/-- The first packet of the server is sealed with the key and the nonce of the confirmation. -/
theorem seals_repeat_server_packet :
    sampleHandshake.map (fun h => decide (h.KeysDistinct ∧
      ¬(((sampleSession h).run .sample [(.server, samplePacket)]).seals .sample).Nodup)) =
        some true := by
  decide +kernel

theorem seals_nodup_client_packets :
    ∃ h, sampleHandshake = some h ∧ h.KeysDistinct ∧
      (((sampleSession h).run .sample
        [(.client, samplePacket), (.client, samplePacket)]).seals .sample).Nodup := by
  have hany : sampleHandshake.any (fun h => decide h.KeysDistinct) = true := by decide +kernel
  obtain ⟨h, hh, hkeys⟩ := (Option.any_eq_true _ _).mp hany
  rw [decide_eq_true_iff] at hkeys
  have hh' := hh
  rw [sampleHandshake] at hh'
  refine ⟨h, hh, hkeys, (seals_nodup_iff sample_lawful hh' hkeys (newTunnel_over _ _ _ _ _)
    (newTunnel_over _ _ _ _ _) _ (by simp)).mpr ?_⟩
  simp only [eachStep_cons, eachStep_nil, and_true]
  exact ⟨fun hsend => absurd hsend.1 (by decide), fun hsend => absurd hsend.1 (by decide)⟩

end ObsidianVPN.Handshake
