import ObsidianVPN.Handshake.Complete
import ObsidianVPN.Lib.ExpiryCache

/-!
# Replayed hellos

`handleClient` from the ClientHello to the ServerHello: the replay cache of the server, then
`ProcessClientHello` with a fresh handshake object. The cache is keyed by a hash of the whole
message, while the handshake authenticates its core only.

* `handleClient`, `accepted`: one arriving hello, and a sequence of them;
* `Arrival.core`: the authenticated part of a hello;
* **`accepted_pairwise_core`**: if hellos with the same core are the same bytes, and
  `ProcessClientHello` starts within 59 s of the look-up, no core is accepted twice;
* `accepted_twice_trailing_byte`: a recorded hello with a byte appended is accepted again.
-/

namespace ObsidianVPN.Server

open ByteStr GoString Handshake ExpiryCache

/-- What `handleClient` knows of the server. -/
structure ServerKeys where
  priv : Bytes
  pub : Bytes
  allowed : Option (List Bytes)
  obfCfg : ObfuscationConfig

/-- A hello that reaches the replay cache: the clock at the look-up and at `ProcessClientHello`, and
the random choices of the server. -/
structure Arrival where
  hello : Bytes
  seenNow : ℕ
  procNow : ℕ
  ephPriv : Bytes
  coins : Bytes
  draws : PadDraws

/-- The key of a hello in the replay cache. -/
def replayKey (P : Primitives) (hello : Bytes) : Bytes :=
  zeroPad 32 (P.hmacSHA256 (ascii "obsidian_handshake_replay_cache_v2") hello)

def newHandshakeReplayCache : Cache Bytes := Cache.new (120 * second) 4096

section Model

variable (P : Primitives) (srv : ServerKeys)

/-- `handleClient` up to the ServerHello. -/
def handleClient (cache : Cache Bytes) (a : Arrival) : Except String Accepted × Cache Bytes :=
  let r := cache.seenOrAdd (replayKey P a.hello) a.seenNow
  if r.1 then (.error "client hello replay", r.2)
  else
    let hs := newServerHandshake P srv.priv srv.pub srv.allowed a.ephPriv
    ((processClientHello P srv.obfCfg hs a.hello a.procNow a.coins a.draws).2, r.2)

/-- The arrivals of a sequence that are accepted. -/
def accepted (cache : Cache Bytes) : List Arrival → List Arrival
  | [] => []
  | a :: as =>
    let r := handleClient P srv cache a
    match r.1 with
    | .ok _ => a :: accepted r.2 as
    | .error _ => accepted r.2 as

end Model

/-- The fields of a hello that parses. -/
def Arrival.core (a : Arrival) : Option (ClientHello Bytes) := (parseClientHello a.hello).toOption

/-- The hello passes `ProcessClientHello` at the time it is presented. -/
def Genuine (P : Primitives) (srv : ServerKeys) (a : Arrival) : Prop :=
  ∃ s' acc, processClientHello P srv.obfCfg
    (newServerHandshake P srv.priv srv.pub srv.allowed a.ephPriv) a.hello a.procNow a.coins a.draws =
      (s', .ok acc)

variable {P : Primitives} {srv : ServerKeys}

/-- **An accepted arrival was new to the cache and passed the handshake.** -/
theorem handleClient_ok {cache : Cache Bytes} {a : Arrival} {acc : Accepted}
    (h : (handleClient P srv cache a).1 = .ok acc) :
    (cache.seenOrAdd (replayKey P a.hello) a.seenNow).1 = false ∧ Genuine P srv a := by
  unfold handleClient at h
  simp only at h
  split at h
  · exact absurd h (by simp)
  · rename_i hseen
    exact ⟨by simpa using hseen, _, acc, Prod.ext rfl h⟩

variable (P srv) in
theorem handleClient_cache (cache : Cache Bytes) (a : Arrival) :
    (handleClient P srv cache a).2 = (cache.seenOrAdd (replayKey P a.hello) a.seenNow).2 := by
  unfold handleClient
  simp only
  split <;> rfl

variable (P srv) in
/-- The calls of the cache behind the accepted arrivals are among those it admits. -/
theorem accepted_sublist (cache : Cache Bytes) (as : List Arrival) :
    ((accepted P srv cache as).map fun a => (replayKey P a.hello, a.seenNow)).Sublist
      (admittedCalls cache (as.map fun a => (replayKey P a.hello, a.seenNow))) := by
  induction as generalizing cache with
  | nil => exact List.Sublist.refl _
  | cons a as ih =>
    rw [accepted, List.map_cons, admittedCalls]
    have hrest := ih (cache.seenOrAdd (replayKey P a.hello) a.seenNow).2
    rw [← handleClient_cache P srv cache a] at hrest ⊢
    split
    · rename_i acc hok
      rw [(handleClient_ok hok).1]
      exact hrest.cons_cons _
    · split
      · exact hrest
      · exact hrest.cons _

theorem genuine_of_mem_accepted {cache : Cache Bytes} {as : List Arrival} {a : Arrival}
    (h : a ∈ accepted P srv cache as) : a ∈ as ∧ Genuine P srv a := by
  induction as generalizing cache with
  | nil => simp [accepted] at h
  | cons b as ih =>
    rw [accepted] at h
    split at h
    · rename_i acc hok
      rcases List.mem_cons.mp h with rfl | h
      · exact ⟨List.mem_cons_self, (handleClient_ok hok).2⟩
      · exact ⟨List.mem_cons_of_mem _ (ih h).1, (ih h).2⟩
    · exact ⟨List.mem_cons_of_mem _ (ih h).1, (ih h).2⟩

/-! ## The window -/

/-- Two clocks that are both within 30 s of a timestamp, also after wrapping around. -/
theorem sub_le_of_window {x y t : ℤ} (hx : 0 ≤ x ∧ x < 2 ^ 62) (hy : 0 ≤ y ∧ y < 2 ^ 62)
    (h1 : abs64 (wrap64 (x - t)) ≤ replayWindowSec) (h2 : abs64 (wrap64 (y - t)) ≤ replayWindowSec) :
    y - x ≤ 60 := by
  have hmod : ∀ z : ℤ, abs64 (wrap64 z) ≤ 30 →
      ∃ k : ℤ, (-30 ≤ z - 2 ^ 64 * k ∧ z - 2 ^ 64 * k ≤ 30) ∨ z - 2 ^ 64 * k = -2 ^ 63 := by
    intro z hz
    have hb1 : -2 ^ 63 ≤ wrap64 z := by
      have := Int.le_bmod (x := z) (m := 2 ^ 64) (by decide); unfold wrap64; omega
    have hb2 : wrap64 z < 2 ^ 63 := by
      have := Int.bmod_lt (x := z) (m := 2 ^ 64) (by decide); unfold wrap64; omega
    have hdiv : z = 2 ^ 64 * Int.bdiv z (2 ^ 64) + wrap64 z := by
      have := Int.bdiv_add_bmod z (2 ^ 64); unfold wrap64; omega
    refine ⟨Int.bdiv z (2 ^ 64), ?_⟩
    unfold abs64 at hz
    split at hz
    · by_cases hmin : wrap64 z = -2 ^ 63
      · right; omega
      · rw [wrap64_of_bounds (by omega) (by omega)] at hz
        left; omega
    · left; omega
  obtain ⟨k, hk⟩ := hmod _ h1
  obtain ⟨l, hl⟩ := hmod _ h2
  omega

/-- **The window of one core**: two arrivals with the same core pass the handshake on clocks at most
60 s apart. -/
theorem unix_sub_le_of_genuine {a b : Arrival} (ha : Genuine P srv a) (hb : Genuine P srv b)
    (hcore : a.core = b.core) (hta : a.procNow < 2 ^ 62 * second) (htb : b.procNow < 2 ^ 62 * second) :
    unix b.procNow - unix a.procNow ≤ 60 := by
  obtain ⟨_, _, ha⟩ := ha
  obtain ⟨_, _, hb⟩ := hb
  obtain ⟨h, _, _, hpa, hfa, -, -⟩ := processClientHello_ok.mp ha
  obtain ⟨h', _, _, hpb, hfb, -, -⟩ := processClientHello_ok.mp hb
  obtain rfl : h = h' := by simpa [Arrival.core, hpa, hpb, Except.toOption] using hcore
  obtain ⟨o, hopen, hauth, -, -⟩ := ServerHandshake.processFields_ok.mp hfa
  obtain ⟨o', hopen', hauth', -, -⟩ := ServerHandshake.processFields_ok.mp hfb
  -- the ephemeral keys of the server play no part when it opens the identity
  obtain rfl : o = o' := Except.ok.inj (hopen.symm.trans hopen')
  have hunix : ∀ t : ℕ, t < 2 ^ 62 * second → 0 ≤ unix t ∧ unix t < 2 ^ 62 := by
    intro t ht
    have := Nat.div_lt_of_lt_mul (by rwa [Nat.mul_comm] at ht)
    have h0 : 0 ≤ unix t := by unfold unix; positivity
    unfold unix at h0 ⊢
    omega
  exact sub_le_of_window (hunix _ hta) (hunix _ htb) (authenticate_ok.mp hauth).1
    (authenticate_ok.mp hauth').1

/-- **No core is accepted twice**, in any sequence of hellos on a clock that does not run backwards,
if hellos with the same core are the same bytes and `ProcessClientHello` reads the clock within 59 s
of the look-up. -/
theorem accepted_pairwise_core (P : Primitives) (srv : ServerKeys) (as : List Arrival)
    (hclock : (as.map Arrival.seenNow).Pairwise (· ≤ ·))
    (hproc : ∀ a ∈ as, a.seenNow ≤ a.procNow ∧ a.procNow < 2 ^ 62 * second)
    (hfast : ∀ a ∈ as, a.procNow ≤ a.seenNow + 59 * second)
    (hsame : ∀ a ∈ as, ∀ b ∈ as, ∀ h, a.core = some h → b.core = some h → a.hello = b.hello) :
    (accepted P srv newHandshakeReplayCache as).Pairwise fun a b => a.core ≠ b.core := by
  have hsorted : ((as.map fun a => (replayKey P a.hello, a.seenNow)).map Prod.snd).Pairwise
      (· ≤ ·) := by
    rw [List.map_map]
    exact hclock
  have hcalls := admittedCalls_pairwise (120 * second) 4096 _ hsorted
  replace hcalls := hcalls.sublist (accepted_sublist P srv _ as)
  rw [List.pairwise_map] at hcalls
  refine hcalls.imp_of_mem fun {a b} ha hb hapart hcore => ?_
  obtain ⟨ha, hga⟩ := genuine_of_mem_accepted ha
  obtain ⟨hb, hgb⟩ := genuine_of_mem_accepted hb
  obtain ⟨h, hpa⟩ : ∃ h, a.core = some h := by
    obtain ⟨_, _, hacc⟩ := hga
    obtain ⟨h, _, _, hparse, -⟩ := processClientHello_ok.mp hacc
    exact ⟨h, by simp [Arrival.core, hparse, Except.toOption]⟩
  -- the same bytes have the same key, so the cache admitted them two minutes apart
  have hbytes := hsame a ha b hb h hpa (hcore ▸ hpa)
  have hgap : a.seenNow + 120 * second ≤ b.seenNow := hapart (by rw [hbytes])
  have hwin := unix_sub_le_of_genuine hga hgb hcore (hproc a ha).2 (hproc b hb).2
  have hlate : a.procNow + 61 * second ≤ b.procNow := by
    have := (hproc b hb).1
    have := hfast a ha
    omega
  have hdiv : a.procNow / second + 61 ≤ b.procNow / second := by
    rw [← Nat.add_mul_div_right _ _ (by decide : 0 < second)]
    exact Nat.div_le_div_right hlate
  unfold unix at hwin
  omega

/-! ## A replay that is accepted -/

theorem seenOrAdd_new_twice {k k' : Bytes} (h : k' ≠ k) {t t' : ℕ} (ht : t ≤ t') :
    (newHandshakeReplayCache.seenOrAdd k t).1 = false ∧
      ((newHandshakeReplayCache.seenOrAdd k t).2.seenOrAdd k' t').1 = false := by
  have hsim := sim_new (κ := Bytes) (120 * second) 4096
  refine ⟨rfl, (seenOrAdd_fst (hsim.seenOrAdd k (Nat.zero_le t)) k' ht).trans ?_⟩
  simp [admits, Function.update_of_ne h]

/-- **Whatever is appended to a hello of an admitted client, it is accepted a second time**, as long
as its timestamp is fresh and the cache sees another key. -/
theorem accepted_append (hP : P.Lawful) {cfg : ObfuscationConfig} {c : ClientHandshake Bytes}
    {tc : ℕ} {r : PadDraws} {tmpCipher : Cipher Bytes} {a b : Arrival} {extra : Bytes}
    (hsrv : 0 ≤ srv.obfCfg.s2Min ∧ srv.obfCfg.s2Max < 2 ^ 63)
    (hpeers : ∀ x ∈ [a, b],
      Peers P c (newServerHandshake P srv.priv srv.pub srv.allowed x.ephPriv))
    (hclock : ∀ x ∈ [a, b],
      tc ≤ x.procNow + 30 * second ∧ x.procNow ≤ tc + 30 * second)
    (horder : a.seenNow ≤ b.seenNow)
    (hbuild : buildHello P cfg c tc r = .ok (a.hello, tmpCipher)) (hb : b.hello = a.hello ++ extra)
    (hkey : replayKey P b.hello ≠ replayKey P a.hello) :
    accepted P srv newHandshakeReplayCache [a, b] = [a, b] ∧ a.core = b.core ∧ a.core ≠ none := by
  obtain ⟨h, tmp, s1, hident, -, hout⟩ := buildHello_ok.mp hbuild
  obtain ⟨hello', tmp', -, hident', hsize, -⟩ := (hpeers a (by simp)).accepts hP (unix tc)
  obtain ⟨rfl, -⟩ := Prod.mk.inj (Except.ok.inj (hident'.symm.trans hident))
  have hlen := length_prePadding_le cfg.prePadMax r
  -- both hellos are the same core between padding and other trailing bytes
  have hform : ∀ x ∈ [a, b], ∃ trailer,
      x.hello = encodeClientHello (prePadding cfg.prePadMax r) hello' trailer := by
    have ha : a.hello = encodeClientHello (prePadding cfg.prePadMax r) hello'
      (putBE 2 s1.length ++ s1) := (Prod.mk.inj hout).1
    rintro x hx
    rcases List.mem_pair.mp hx with rfl | rfl
    · exact ⟨_, ha⟩
    · exact ⟨putBE 2 s1.length ++ s1 ++ extra, by rw [hb, ha]; simp [encodeClientHello]⟩
  have hcore : ∀ x ∈ [a, b], x.core = some hello' := by
    intro x hx
    obtain ⟨trailer, hx⟩ := hform x hx
    simp [Arrival.core, hx, parseClientHello_encode hsize hlen, Except.toOption]
  have hok : ∀ x ∈ [a, b], ∀ cache : Cache Bytes,
      (cache.seenOrAdd (replayKey P x.hello) x.seenNow).1 = false →
      ∃ acc, (handleClient P srv cache x).1 = .ok acc := by
    intro x hx cache hnew
    obtain ⟨trailer, hxh⟩ := hform x hx
    obtain ⟨s', acc, -, -, -, hproc, -⟩ := (hpeers x hx).completes hP (hclock x hx) hident cfg hsrv
      hlen trailer x.coins x.draws
    rw [← hxh] at hproc
    exact ⟨acc, by simp only [handleClient, hnew, hproc]; rfl⟩
  obtain ⟨hn1, hn2⟩ := seenOrAdd_new_twice hkey horder
  obtain ⟨acc, hacc⟩ := hok a (by simp) _ hn1
  rw [← handleClient_cache P srv] at hn2
  obtain ⟨acc', hacc'⟩ := hok b (by simp) _ hn2
  refine ⟨?_, (hcore a (by simp)).trans (hcore b (by simp)).symm, by simp [hcore a]⟩
  simp only [accepted, hacc, hacc']

/-- A server with a constant key that admits everybody. -/
def sampleServer : ServerKeys :=
  ⟨List.replicate keySize 1, List.replicate keySize 1, none, defaultObfuscationConfig⟩

/-- A hello built at second 1000. -/
def sampleHello : Bytes :=
  let key (b : UInt8) : Bytes := List.replicate keySize b
  let c := newClientHandshake .sample (key 1) (newKeypair .sample (key 2)) (key 3) [4]
    (List.replicate 32 5)
  match buildHello .sample defaultObfuscationConfig c (1000 * second)
    ⟨0, fun _ => 0, 0, fun _ => 0⟩ with
  | .ok (hello, _) => hello
  | .error _ => []

/-- A hello presented at an instant given in seconds. -/
def arrivesAt (t : ℕ) (hello : Bytes) : Arrival :=
  ⟨hello, t * second, t * second, List.replicate keySize 6, [7], ⟨0, fun _ => 0, 0, fun _ => 0⟩⟩

/-- A recorded hello with one byte appended is accepted again a second later. -/
theorem accepted_twice_trailing_byte :
    ¬(accepted .sample sampleServer newHandshakeReplayCache
      [arrivesAt 1000 sampleHello, arrivesAt 1001 (sampleHello ++ [1])]).Pairwise
        fun a b => a.core ≠ b.core := by
  decide +kernel

theorem accepted_once_same_bytes :
    (accepted .sample sampleServer newHandshakeReplayCache
      [arrivesAt 1000 sampleHello, arrivesAt 1001 sampleHello]).Pairwise
        fun a b => a.core ≠ b.core := by
  refine accepted_pairwise_core .sample sampleServer _ (by decide) ?_ ?_ ?_
  · simp only [List.forall_mem_cons, arrivesAt]
    exact ⟨by decide, by decide, by simp⟩
  · simp only [List.forall_mem_cons, arrivesAt]
    exact ⟨by decide, by decide, by simp⟩
  · rintro a ha b hb h - -
    rcases List.mem_pair.mp ha with rfl | rfl <;> rcases List.mem_pair.mp hb with rfl | rfl <;> rfl

end ObsidianVPN.Server
