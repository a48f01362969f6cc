import ObsidianVPN.Client.UriParts

/-!
# From a configuration to its URI and back

`EncodeURI` leaves out what has its default, but also parameters that `ParseURI` reads and
`EncodeURI` does not know.

* `ClientConfig.Parsed`: what holds of every configuration that `ParseURI` returns;
  **`parsed_of_parseURI`**;
* `ClientConfig.reparsed`, **`parseURI_encodeURI`**: the configuration that comes back;
* `ClientConfig.Expressible`, **`roundTrip_iff`**: which configurations come back unchanged.
-/

namespace ObsidianVPN.Uri

open ByteStr GoString Decimal QueryEscape

/-! ## What `ParseURI` returns -/

/-- What holds of every configuration that `ParseURI` returns. -/
structure ClientConfig.Parsed (N : NetURL) (cfg : ClientConfig) : Prop where
  version : cfg.protocolVersion = 2
  host : cfg.serverHost ≠ []
  port : cfg.serverPort ≠ [] ∧ cfg.serverPort.all isDigit = true
  key : cfg.serverPublicKey ≠ [] ∧ N.toLower cfg.serverPublicKey = cfg.serverPublicKey
  clientKey : N.toLower cfg.clientPrivateKey = cfg.clientPrivateKey
  reality : cfg.realityEnabled = true →
    cfg.realitySNI ≠ [] ∧ cfg.sni = cfg.realitySNI ∧ cfg.fingerprint ≠ []
  noReality : cfg.realityEnabled = false →
    cfg.realitySNI = [] ∧ cfg.sni = [] ∧ cfg.realityAuthKey = [] ∧ cfg.fingerprint = []
  udpPort : cfg.udpPort ≠ []
  profile : cfg.profile ≠ []
  dns : cfg.dns ≠ []
  mtu : 0 < cfg.mtu ∧ cfg.mtu ≤ 1420
  maxDevices : cfg.maxDevices < 2 ^ 32

section Parsed

variable {N : NetURL}

theorem NetURL.Lawful.toLower_nil (hN : N.Lawful) : N.toLower [] = [] :=
  hN.toLower_eq_self (by simp)

theorem NetURL.Lawful.toLower_lower (hN : N.Lawful) (q : Lookup) (keys : List String) {dflt : Bytes}
    (h : N.toLower dflt = dflt) : N.toLower (N.lower q keys dflt) = N.lower q keys dflt := by
  unfold NetURL.lower
  cases q.first? keys with
  | none => exact h
  | some v => exact hN.toLower_toLower v

theorem NetURL.Lawful.toLower_userKey (hN : N.Lawful) (u : URL) :
    N.toLower (N.userKey u) = N.userKey u := by
  unfold NetURL.userKey
  split
  · split
    · exact hN.toLower_toLower _
    · exact hN.toLower_nil
  · exact hN.toLower_nil

theorem Lookup.mtu_mem (q : Lookup) : 0 < q.mtu 1420 ∧ q.mtu 1420 ≤ 1420 := by
  unfold Lookup.mtu
  split
  · split <;> omega
  · decide

theorem parseUint_lt {bits : ℕ} {s : Bytes} {n : ℕ} (h : parseUint bits s = some n) : n < 2 ^ bits := by
  obtain ⟨-, hn⟩ := Option.filter_eq_some_iff.mp h
  exact of_decide_eq_true hn

theorem NetURL.Lawful.parsed_readURL (hN : N.Lawful) {u : URL} {host port : Bytes}
    {cfg : ClientConfig} (hhost : host ≠ []) (hport : port.all isDigit = true)
    (h : N.readURL u host port = .ok cfg) : cfg.Parsed N := by
  unfold NetURL.readURL at h
  dsimp only at h
  split at h
  · exact absurd h (by simp)
  · rename_i hkey
    obtain rfl := Except.ok.inj h
    refine ⟨rfl, hhost, ?_, ⟨hkey, hN.toLower_lower _ _ (hN.toLower_userKey u)⟩,
      hN.toLower_lower _ _ hN.toLower_nil, ?_, ?_, Lookup.text_ne_nil ?_,
      Lookup.text_ne_nil (show defaultClientConfig.profile ≠ [] by decide),
      Lookup.text_ne_nil (show defaultClientConfig.dns ≠ [] by decide), Lookup.mtu_mem _, ?_⟩
    · dsimp only [NetURL.readParams]
      split
      · rename_i hne
        exact ⟨hne, hport⟩
      · exact ⟨by decide, by decide⟩
    · dsimp only [NetURL.readParams]
      intro hreality
      split at hreality
      · rename_i hr
        rw [if_pos hr, if_pos hr, if_pos hr]
        exact ⟨Lookup.text_ne_nil (by decide), rfl, Lookup.text_ne_nil (by decide)⟩
      · exact absurd hreality (by decide)
    · dsimp only [NetURL.readParams]
      intro hreality
      split at hreality
      · exact absurd hreality (by decide)
      · rename_i hr
        rw [if_neg hr, if_neg hr, if_neg hr, if_neg hr]
        exact ⟨rfl, rfl, rfl, rfl⟩
    · dsimp only
      split
      · assumption
      · decide
    · dsimp only [NetURL.readParams]
      cases hdev : (Lookup.first? (N.query u.rawQuery).all ["max_devices", "m"]).bind
          (parseUint 32) with
      | none => decide
      | some n =>
        obtain ⟨s, -, hs⟩ := Option.bind_eq_some_iff.mp hdev
        exact parseUint_lt hs

/-- **What `ParseURI` returns.** -/
theorem NetURL.Lawful.parsed_of_parseURI (hN : N.Lawful) {rawURI : Bytes} {cfg : ClientConfig}
    (h : N.parseURI rawURI = .ok cfg) : cfg.Parsed N := by
  unfold NetURL.parseURI at h
  dsimp only at h
  split at h
  · exact absurd h (by simp)
  · split at h
    · exact absurd h (by simp)
    · rename_i u _
      split at h
      · exact absurd h (by simp)
      · split at h
        · exact absurd h (by simp)
        · rename_i hhost
          exact hN.parsed_readURL hhost (all_isDigit_port u.host) h

end Parsed

/-! ## The parameters that are written -/

/-- The names of the parameters that `EncodeURI` knows. -/
def paramNames : List String :=
  ["udp_port", "udp_data", "ipv6", "no_tls", "security", "sni", "auth_key", "fp", "profile", "mtu",
    "dns", "keyserver", "token", "expires", "max_devices", "client_key"]

/-- Other parameters are not written. -/
theorem all_params_of_notMem (cfg : ClientConfig) {key : String} (h : key ∉ paramNames) :
    cfg.params.all key = [] := by
  simp only [paramNames, List.mem_cons, List.not_mem_nil, or_false, not_or] at h
  simp only [ClientConfig.params, Values.all_setIf, h, and_false, if_false]
  rfl

theorem get_params_of_notMem (cfg : ClientConfig) {keys : List String}
    (h : ∀ key ∈ keys, key ∉ paramNames) : ∀ key ∈ keys, Lookup.get cfg.params.all key = [] :=
  fun key hkey => by rw [Lookup.get, all_params_of_notMem cfg (h key hkey)]; rfl

section Reparsed

variable {N : NetURL} {cfg : ClientConfig}

theorem NetURL.bool_of_get_ite {q : Lookup} {key : String} {keys : List String} {b dflt : Bool}
    {lit : Bytes} (h : q.get key = if b = !dflt then lit else []) (hlit : lit ≠ [])
    (hparse : N.parseBool lit dflt = !dflt) (hrest : ∀ key ∈ keys, q.get key = []) :
    N.bool q (key :: keys) dflt = b := by
  rw [NetURL.bool, Lookup.first?_cons hrest, h]
  by_cases hb : b = !dflt
  · simp [hb, hlit, hparse]
  · have hsame : b = dflt := by cases b <;> cases dflt <;> simp_all
    simp [hsame]

/-- A value that neither `strings.TrimSpace` nor `strings.ToLower` changes. -/
theorem NetURL.Lawful.parseBool_plain (hN : N.Lawful) {s : Bytes} (htrim : trimSpace s = s)
    (hs : ∀ c ∈ s, c < 0x80 ∧ asciiLower c = c) (dflt : Bool) :
    N.parseBool s dflt =
      if s ∈ [ascii "1", ascii "true", ascii "yes", ascii "on"] then true
      else if s ∈ [ascii "0", ascii "false", ascii "no", ascii "off"] then false
      else dflt := by
  unfold NetURL.parseBool
  dsimp only
  rw [htrim, hN.toLower_eq_self hs]

theorem NetURL.Lawful.parseBool_one (hN : N.Lawful) (dflt : Bool) :
    N.parseBool (ascii "1") dflt = true :=
  hN.parseBool_plain (by decide) (by decide +kernel) dflt

theorem NetURL.Lawful.parseBool_zero (hN : N.Lawful) (dflt : Bool) :
    N.parseBool (ascii "0") dflt = false :=
  hN.parseBool_plain (by decide) (by decide +kernel) dflt

theorem NetURL.Lawful.parseBool_nil (hN : N.Lawful) (dflt : Bool) : N.parseBool [] dflt = dflt :=
  hN.parseBool_plain (by decide) (by simp) dflt

/-- REALITY is read back from the parameter `security`. -/
theorem NetURL.Lawful.isReality_params (hN : N.Lawful) (cfg : ClientConfig) :
    N.isReality cfg.params.all = cfg.realityEnabled := by
  have hnone : ∀ key ∈ ["reality", "re"], Lookup.get cfg.params.all key = [] :=
    get_params_of_notMem cfg (by decide)
  have hsec : Lookup.get cfg.params.all "security" =
      if cfg.realityEnabled = true then ascii "reality" else [] := by
    simp [ClientConfig.params]
  have hsni : Lookup.get cfg.params.all "sni" =
      if cfg.realityEnabled = true ∧ cfg.realitySNI ≠ [] then cfg.realitySNI else [] := by
    simp [ClientConfig.params]
  have hauth : Lookup.get cfg.params.all "auth_key" =
      if cfg.realityEnabled = true ∧ cfg.realityAuthKey ≠ [] then cfg.realityAuthKey else [] := by
    simp [ClientConfig.params]
  unfold NetURL.isReality
  rw [hsec, hsni, hauth, hnone _ (by decide), hnone _ (by decide), hN.parseBool_nil]
  cases cfg.realityEnabled with
  | true =>
    have hlower : N.toLower (ascii "reality") = ascii "reality" :=
      hN.toLower_eq_self (by decide +kernel)
    simp [hlower]
  | false =>
    have hne : ([] : Bytes) ≠ ascii "reality" := by decide
    simp [hN.toLower_nil, hne]

/-- A field that `ParseURI` reads only for REALITY. -/
theorem NetURL.Lawful.ite_isReality (hN : N.Lawful) {α : Type*} {a b c : α}
    (hon : cfg.realityEnabled = true → a = c) (hoff : cfg.realityEnabled = false → b = c) :
    (if N.isReality cfg.params.all = true then a else b) = c := by
  rw [hN.isReality_params]
  cases hr : cfg.realityEnabled with
  | true => exact hon hr
  | false => exact hoff hr

/-- The configuration that comes back. -/
def ClientConfig.reparsed (cfg : ClientConfig) : ClientConfig :=
  { cfg with
    serverHost := rehost cfg.serverHost
    label := if cfg.label ≠ [] then labelOf cfg.label else []
    dns := if cfg.dns = ascii "10.8.0.1" then ascii "1.1.1.1" else cfg.dns
    tunAddress := defaultClientConfig.tunAddress
    jitter := defaultClientConfig.jitter
    junkCount := defaultClientConfig.junkCount
    junkMin := defaultClientConfig.junkMin
    junkMax := defaultClientConfig.junkMax
    noiseMinSec := defaultClientConfig.noiseMinSec
    noiseMaxSec := defaultClientConfig.noiseMaxSec
    keepaliveSec := defaultClientConfig.keepaliveSec
    signatures := defaultClientConfig.signatures }

/-- The texts are read back, the name server with one exception. -/
theorem text_params (h : cfg.Parsed N) :
    Lookup.text cfg.params.all ["udp_port", "udp"] cfg.serverPort = cfg.udpPort ∧
    Lookup.text cfg.params.all ["profile"] (ascii "fast-secure") = cfg.profile ∧
    Lookup.text cfg.params.all ["dns", "d"] (ascii "1.1.1.1") =
      (if cfg.dns = ascii "10.8.0.1" then ascii "1.1.1.1" else cfg.dns) ∧
    Lookup.text cfg.params.all ["keyserver", "ks"] [] = cfg.keyserverURL ∧
    Lookup.text cfg.params.all ["token", "t"] [] = cfg.token ∧
    Lookup.text cfg.params.all ["expires", "e"] [] = cfg.expires := by
  have hport : cfg.port = cfg.serverPort := if_neg h.port.1
  refine ⟨?_, ?_, ?_, ?_, ?_, ?_⟩
  · refine Lookup.text_of_get_ite ?_ (fun _ => h.udpPort) (get_params_of_notMem cfg (by decide))
    simp [ClientConfig.params, hport, h.udpPort]
  · refine Lookup.text_of_get_ite ?_ (fun _ => h.profile) (by simp)
    simp [ClientConfig.params, h.profile]
  · have hget : Lookup.get cfg.params.all "dns" =
        if cfg.dns ≠ [] ∧ cfg.dns ≠ ascii "1.1.1.1" ∧ cfg.dns ≠ ascii "10.8.0.1" then cfg.dns
        else [] := by
      simp [ClientConfig.params]
    refine Lookup.text_of_get_ite ?_ (fun _ => ?_) (get_params_of_notMem cfg (by decide))
    · rw [hget]
      by_cases hdns : cfg.dns = ascii "10.8.0.1"
      · simp [hdns]
      · simp [hdns, h.dns]
    · split
      · decide
      · exact h.dns
  · refine Lookup.text_of_get_ite ?_ id (get_params_of_notMem cfg (by decide))
    simp [ClientConfig.params]
  · refine Lookup.text_of_get_ite ?_ id (get_params_of_notMem cfg (by decide))
    simp [ClientConfig.params]
  · refine Lookup.text_of_get_ite ?_ id (get_params_of_notMem cfg (by decide))
    simp [ClientConfig.params]

/-- The switches are read back. -/
theorem NetURL.Lawful.bool_params (hN : N.Lawful) (cfg : ClientConfig) :
    N.bool cfg.params.all ["udp_data", "eu"] true = cfg.enableUDPData ∧
    N.bool cfg.params.all ["ipv6", "v6"] false = cfg.enableIPv6 ∧
    N.bool cfg.params.all ["no_tls", "nt"] false = cfg.noTLS := by
  refine ⟨?_, ?_, ?_⟩
  · refine NetURL.bool_of_get_ite ?_ (by decide) (hN.parseBool_zero true)
      (get_params_of_notMem cfg (by decide))
    simp [ClientConfig.params]
  · refine NetURL.bool_of_get_ite ?_ (by decide) (hN.parseBool_one false)
      (get_params_of_notMem cfg (by decide))
    simp [ClientConfig.params]
  · refine NetURL.bool_of_get_ite ?_ (by decide) (hN.parseBool_one false)
      (get_params_of_notMem cfg (by decide))
    simp [ClientConfig.params]

/-- The numbers are read back. -/
theorem num_params (h : cfg.Parsed N) :
    Lookup.mtu cfg.params.all 1420 = cfg.mtu ∧
    ((Lookup.first? cfg.params.all ["max_devices", "m"]).bind (parseUint 32)).getD 0 =
      cfg.maxDevices := by
  constructor
  · have hget : Lookup.get cfg.params.all "mtu" =
        if cfg.mtu ≠ 0 ∧ cfg.mtu ≠ 1420 then itoa cfg.mtu else [] := by
      simp [ClientConfig.params]
    obtain ⟨hpos, hle⟩ := h.mtu
    rw [Lookup.mtu, Lookup.first?_cons (by simp), hget]
    by_cases hmtu : cfg.mtu = 1420
    · simp [hmtu]
    · have hwritten : cfg.mtu ≠ 0 ∧ cfg.mtu ≠ 1420 := ⟨hpos.ne', hmtu⟩
      rw [if_pos hwritten, if_pos (itoa_ne_nil _), Option.bind_some,
        atoi_itoa (by omega) (by omega)]
      dsimp only
      rw [if_pos hpos, min_eq_left hle]
  · have hget : Lookup.get cfg.params.all "max_devices" =
        if cfg.maxDevices > 0 then formatNat cfg.maxDevices else [] := by
      simp [ClientConfig.params]
    rw [Lookup.first?_cons (get_params_of_notMem cfg (by decide)), hget]
    by_cases hdev : cfg.maxDevices > 0
    · rw [if_pos hdev, if_pos (formatNat_ne_nil _), Option.bind_some,
        parseUint_formatNat h.maxDevices]
      rfl
    · rw [if_neg hdev]
      simp
      omega

/-- The fields of REALITY are read back. -/
theorem reality_params (h : cfg.Parsed N) (hr : cfg.realityEnabled = true) :
    Lookup.text cfg.params.all ["sni", "rs", "reality_sni"] (ascii "www.microsoft.com") =
      cfg.realitySNI ∧
    Lookup.text cfg.params.all ["auth_key", "rk", "sid", "reality_auth_key"] [] =
      cfg.realityAuthKey ∧
    Lookup.text cfg.params.all ["fp", "fingerprint"] (ascii "chrome") = cfg.fingerprint := by
  obtain ⟨hsni, -, hfp⟩ := h.reality hr
  refine ⟨?_, ?_, ?_⟩
  · refine Lookup.text_of_get ?_ hsni
    simp [ClientConfig.params, hr, hsni]
  · refine Lookup.text_of_get_ite ?_ id (get_params_of_notMem cfg (by decide))
    simp [ClientConfig.params, hr]
  · refine Lookup.text_of_get_ite ?_ (fun _ => hfp) (get_params_of_notMem cfg (by decide))
    simp [ClientConfig.params, hr, hfp]

/-- The keys are read back. -/
theorem NetURL.Lawful.lower_params (h : cfg.Parsed N) (dflt : Bytes) :
    N.lower cfg.params.all ["client_key"] [] = cfg.clientPrivateKey ∧
    N.lower cfg.params.all ["pk", "pbk", "server_public_key"] dflt = dflt := by
  constructor
  · have hget : Lookup.get cfg.params.all "client_key" = cfg.clientPrivateKey := by
      simp only [ClientConfig.params, Values.get_setIf, Values.get_nil]
      by_cases hck : cfg.clientPrivateKey = [] <;> simp [hck]
    rw [NetURL.lower, Lookup.first?_cons (by simp), hget]
    by_cases hck : cfg.clientPrivateKey = []
    · simp [hck]
    · simp [hck, h.clientKey]
  · rw [NetURL.lower, Lookup.first?_eq_none (get_params_of_notMem cfg (by decide))]
    rfl

/-- **What comes back from the parameters of a configuration.** -/
theorem NetURL.Lawful.readURL_encodeURL (hN : N.Lawful) (h : cfg.Parsed N) :
    N.readURL (N.encodeURL cfg []) (rehost cfg.serverHost) cfg.serverPort = .ok cfg.reparsed := by
  have hq : (N.query (N.encodeURL cfg []).rawQuery).all = cfg.params.all :=
    funext (hN.query_encode cfg.params)
  have hkey : N.userKey (N.encodeURL cfg []) = cfg.serverPublicKey := by
    simp only [NetURL.userKey, NetURL.encodeURL, ne_eq, h.key.1, not_false_eq_true, if_true, h.key.2]
  have hfirst : ∀ keys : List String, keys ⊆ ["jitter", "tun", "tun_address", "junk", "junk_min",
      "junk_max", "noise_min", "noise_max", "keepalive"] →
      Lookup.first? cfg.params.all keys = none := fun keys hkeys =>
    Lookup.first?_eq_none fun key hmem =>
      get_params_of_notMem cfg (by decide) key (hkeys hmem)
  have hfragment : (N.encodeURL cfg []).fragment = cfg.label := by simp [NetURL.encodeURL]
  obtain ⟨hudp, hprofile, hdns, hks, htoken, hexpires⟩ := text_params h
  obtain ⟨hdata, hv6, htls⟩ := hN.bool_params cfg
  obtain ⟨hmtu, hdev⟩ := num_params h
  obtain ⟨hck, hpk⟩ := NetURL.Lawful.lower_params h cfg.serverPublicKey
  unfold NetURL.readURL
  dsimp only
  rw [hq, hkey, hpk, if_neg h.key.1, if_pos h.port.1, hfragment]
  congr 1
  apply ClientConfig.ext <;> dsimp only [NetURL.readParams, ClientConfig.reparsed]
  case protocolVersion => exact h.version.symm
  case clientPrivateKey => exact hck
  case noTLS => exact htls
  case udpPort => exact hudp
  case profile => exact hprofile
  case dns => exact hdns
  case keyserverURL => exact hks
  case token => exact htoken
  case expires => exact hexpires
  case enableUDPData => exact hdata
  case enableIPv6 => exact hv6
  case mtu => exact hmtu
  case maxDevices => exact hdev
  case realityEnabled => exact hN.ite_isReality Eq.symm Eq.symm
  case realitySNI =>
    exact hN.ite_isReality (fun hr => (reality_params h hr).1) fun hr => (h.noReality hr).1.symm
  case sni =>
    exact hN.ite_isReality (fun hr => (reality_params h hr).1.trans (h.reality hr).2.1.symm)
      fun hr => (h.noReality hr).2.1.symm
  case realityAuthKey =>
    exact hN.ite_isReality (fun hr => (reality_params h hr).2.1)
      fun hr => (h.noReality hr).2.2.1.symm
  case fingerprint =>
    exact hN.ite_isReality (fun hr => (reality_params h hr).2.2)
      fun hr => (h.noReality hr).2.2.2.symm
  case signatures => rw [all_params_of_notMem cfg (by decide)]; rfl
  case tunAddress => rw [Lookup.text, hfirst _ (by decide)]; rfl
  case jitter => rw [Lookup.text, hfirst _ (by decide)]; rfl
  case junkCount => rw [Lookup.int, hfirst _ (by decide)]; rfl
  case junkMin => rw [Lookup.int, hfirst _ (by decide)]; rfl
  case junkMax => rw [Lookup.int, hfirst _ (by decide)]; rfl
  case noiseMinSec => rw [NetURL.float, hfirst _ (by decide)]; rfl
  case noiseMaxSec => rw [NetURL.float, hfirst _ (by decide)]; rfl
  case keepaliveSec => rw [NetURL.float, hfirst _ (by decide)]; rfl

theorem NetURL.built_encodeURL (N : NetURL) (cfg : ClientConfig) (label : Bytes) :
    N.Built (N.encodeURL cfg label) := ⟨rfl, rfl, cfg.params, rfl⟩

/-- **What `ParseURI` makes of an encoded configuration.** -/
theorem NetURL.Lawful.parseURI_encodeURI (hN : N.Lawful) (h : cfg.Parsed N) :
    N.parseURI (N.encodeURI cfg []) =
      if rehost cfg.serverHost = [] then .error .missingHost else .ok cfg.reparsed := by
  have hport : cfg.port = cfg.serverPort := if_neg h.port.1
  have hsplit : splitHostPort (N.encodeURL cfg []).host =
      (rehost cfg.serverHost, cfg.serverPort) := by
    change splitHostPort (joinHostPort (stripBrackets cfg.serverHost) cfg.port) = _
    rw [hport]
    exact splitHostPort_joinHostPort cfg.serverHost h.port.2
  rw [NetURL.encodeURI, hN.parseURI_string (N.built_encodeURL cfg []), hsplit,
    hN.readURL_encodeURL h]

end Reparsed

/-! ## The round trip -/

/-- A label that is not unescaped a second time: it has no `%` and no `+`, or a `%` that is not
followed by two hexadecimal digits. -/
def StableLabel (label : Bytes) : Prop :=
  (0x25 ∉ label ∧ 0x2b ∉ label) ∨ queryUnescape label = none

/-- The configuration has nothing that `EncodeURI` cannot write. -/
structure ClientConfig.Expressible (cfg : ClientConfig) : Prop where
  host : [0x5b].isPrefixOf cfg.serverHost = false ∧ [0x5d].isSuffixOf cfg.serverHost = false
  label : StableLabel cfg.label
  dns : cfg.dns ≠ ascii "10.8.0.1"
  tunAddress : cfg.tunAddress = defaultClientConfig.tunAddress
  jitter : cfg.jitter = defaultClientConfig.jitter
  junk : cfg.junkCount = defaultClientConfig.junkCount ∧
    cfg.junkMin = defaultClientConfig.junkMin ∧ cfg.junkMax = defaultClientConfig.junkMax
  noise : cfg.noiseMinSec = defaultClientConfig.noiseMinSec ∧
    cfg.noiseMaxSec = defaultClientConfig.noiseMaxSec
  keepalive : cfg.keepaliveSec = defaultClientConfig.keepaliveSec
  signatures : cfg.signatures = defaultClientConfig.signatures

/-- The second unescaping keeps a label exactly when it is stable. -/
theorem relabel_eq_self_iff {label : Bytes} :
    (if label ≠ [] then labelOf label else []) = label ↔ StableLabel label := by
  by_cases hnil : label = []
  · subst hnil
    simp [StableLabel]
  · rw [if_pos hnil, labelOf, StableLabel, ← queryUnescape_eq_self_iff]
    cases queryUnescape label with
    | none => simp
    | some t => simp

theorem ClientConfig.reparsed_eq_self_iff {cfg : ClientConfig} :
    cfg.reparsed = cfg ↔ cfg.Expressible := by
  have hdns : (if cfg.dns = ascii "10.8.0.1" then ascii "1.1.1.1" else cfg.dns) = cfg.dns ↔
      cfg.dns ≠ ascii "10.8.0.1" := by
    by_cases hd : cfg.dns = ascii "10.8.0.1"
    · have hne : ascii "1.1.1.1" ≠ ascii "10.8.0.1" := by decide
      simp [hd, hne]
    · simp [hd]
  constructor
  · intro h
    have hfield : ∀ {α : Type} (f : ClientConfig → α), f cfg.reparsed = f cfg := fun f => by rw [h]
    exact ⟨rehost_eq_self_iff.mp (hfield ClientConfig.serverHost),
      relabel_eq_self_iff.mp (hfield ClientConfig.label), hdns.mp (hfield ClientConfig.dns),
      (hfield ClientConfig.tunAddress).symm, (hfield ClientConfig.jitter).symm,
      ⟨(hfield ClientConfig.junkCount).symm, (hfield ClientConfig.junkMin).symm,
        (hfield ClientConfig.junkMax).symm⟩,
      ⟨(hfield ClientConfig.noiseMinSec).symm, (hfield ClientConfig.noiseMaxSec).symm⟩,
      (hfield ClientConfig.keepaliveSec).symm, (hfield ClientConfig.signatures).symm⟩
  · intro h
    unfold ClientConfig.reparsed
    rw [rehost_eq_self_iff.mpr h.host, relabel_eq_self_iff.mpr h.label, hdns.mpr h.dns,
      ← h.tunAddress, ← h.jitter, ← h.junk.1, ← h.junk.2.1, ← h.junk.2.2, ← h.noise.1, ← h.noise.2,
      ← h.keepalive, ← h.signatures]

/-- **A configuration that `ParseURI` has returned comes back from its URI exactly when `EncodeURI`
can write all of it.** -/
theorem roundTrip_iff {N : NetURL} (hN : N.Lawful) {rawURI : Bytes} {cfg : ClientConfig}
    (h : N.parseURI rawURI = .ok cfg) :
    N.parseURI (N.encodeURI cfg []) = .ok cfg ↔ cfg.Expressible := by
  have hparsed := hN.parsed_of_parseURI h
  rw [hN.parseURI_encodeURI hparsed, ← ClientConfig.reparsed_eq_self_iff]
  constructor
  · intro heq
    split at heq
    · exact absurd heq (by simp)
    · exact Except.ok.inj heq
  · intro heq
    have hhost : rehost cfg.serverHost = cfg.serverHost := congrArg ClientConfig.serverHost heq
    rw [hhost, if_neg hparsed.host, heq]

section Samples

/-- `strings.Cut`: what is before and what is after the first `c`. -/
def cut (c : UInt8) (s : Bytes) : Bytes × Bytes :=
  (s.takeWhile fun d => decide (d ≠ c), (s.dropWhile fun d => decide (d ≠ c)).tail)

/-- One parameter with its separators. -/
def encodePair (p : Bytes × Bytes) : Bytes :=
  queryEscape p.1 ++ 0x3d :: queryEscape p.2

def decodePair (s : Bytes) : Option (Bytes × Bytes) := do
  let key ← queryUnescape (cut 0x3d s).1
  let value ← queryUnescape (cut 0x3d s).2
  return (key, value)

def sampleString (u : URL) : Bytes :=
  ascii "obsidian://" ++ queryEscape (u.user.getD []) ++ 0x40 :: queryEscape u.host ++
    0x3f :: u.rawQuery ++ 0x23 :: queryEscape u.fragment

def sampleParse (s : Bytes) : Except String URL :=
  let beforeFragment := cut 0x23 s
  let beforeQuery := cut 0x3f beforeFragment.1
  let authority := cut 0x40 (beforeQuery.1.drop 11)
  match queryUnescape authority.1, queryUnescape authority.2, queryUnescape beforeFragment.2 with
  | some user, some host, some fragment =>
    if (ascii "obsidian://").isPrefixOf s then
      .ok ⟨ascii "obsidian", some user, host, beforeQuery.2, fragment⟩
    else .error "missing protocol scheme"
  | _, _, _ => .error "invalid URL escape"

/-- URLs with a user and escaped components, all of the scheme `obsidian`. -/
def NetURL.sample : NetURL where
  parse := sampleParse
  string := sampleString
  query s := (s.splitOn 0x26).filterMap fun p => if p = [] then none else decodePair p
  encode q := q.flatMap fun p => encodePair p ++ [0x26]
  toLower s := s.map asciiLower
  parseFloat _ := none

theorem cut_append {c : UInt8} {s : Bytes} (h : c ∉ s) (t : Bytes) : cut c (s ++ c :: t) = (s, t) := by
  have hs : ∀ d ∈ s, decide (d ≠ c) = true := fun d hd => by
    have : d ≠ c := fun heq => h (heq ▸ hd)
    simpa using this
  unfold cut
  rw [List.takeWhile_append_of_pos hs, List.dropWhile_append_of_pos hs,
    List.takeWhile_cons_of_neg (by simp), List.dropWhile_cons_of_neg (by simp), List.append_nil,
    List.tail_cons]

/-- The separators do not occur in an escaped string. -/
theorem queryEscape_notMem (s : Bytes) : 0x23 ∉ queryEscape s ∧ 0x3f ∉ queryEscape s ∧
    0x40 ∉ queryEscape s ∧ 0x3d ∉ queryEscape s ∧ 0x26 ∉ queryEscape s := by
  refine ⟨?_, ?_, ?_, ?_, ?_⟩ <;> exact fun h => absurd (queryEscape_mem h) (by decide)

theorem queryEscape_visible {s : Bytes} {c : UInt8} (h : c ∈ queryEscape s) :
    0x21 ≤ c ∧ c ≤ 0x7e := by
  have hall : ∀ n < 256, unreserved (UInt8.ofNat n) = true ∨ UInt8.ofNat n = 0x25 ∨
      UInt8.ofNat n = 0x2b → 0x21 ≤ UInt8.ofNat n ∧ UInt8.ofNat n ≤ 0x7e := by decide +kernel
  have := hall c.toNat c.toNat_lt
  rw [UInt8.ofNat_toNat] at this
  exact this (queryEscape_mem h)

theorem decodePair_encodePair (p : Bytes × Bytes) : decodePair (encodePair p) = some p := by
  unfold decodePair encodePair
  rw [cut_append (queryEscape_notMem p.1).2.2.2.1, queryUnescape_queryEscape,
    queryUnescape_queryEscape]
  rfl

theorem query_encode_sample (q : Values) : NetURL.sample.query (NetURL.sample.encode q) = q := by
  change ((q.flatMap fun p => encodePair p ++ [0x26]).splitOn 0x26).filterMap _ = q
  induction q with
  | nil => rfl
  | cons p q ih =>
    have hamp : 0x26 ∉ encodePair p := by
      obtain ⟨-, -, -, -, h1⟩ := queryEscape_notMem p.1
      obtain ⟨-, -, -, -, h2⟩ := queryEscape_notMem p.2
      simp [encodePair, h1, h2]
    have hne : encodePair p ≠ [] := by simp [encodePair]
    rw [List.flatMap_cons, List.append_assoc, List.singleton_append,
      List.splitOn_append_cons_self_of_not_mem hamp, List.filterMap_cons, if_neg hne,
      decodePair_encodePair, ih]

/-- What the encoded parameters consist of. -/
theorem encode_sample_mem {q : Values} {c : UInt8} (h : c ∈ NetURL.sample.encode q) :
    (∃ s, c ∈ queryEscape s) ∨ c = 0x3d ∨ c = 0x26 := by
  obtain ⟨p, -, hp⟩ := List.mem_flatMap.mp h
  simp only [encodePair, List.mem_append, List.mem_cons, List.not_mem_nil, or_false] at hp
  rcases hp with (hp | rfl | hp) | rfl
  · exact .inl ⟨p.1, hp⟩
  · exact .inr (.inl rfl)
  · exact .inl ⟨p.2, hp⟩
  · exact .inr (.inr rfl)

theorem parse_string_sample {u : URL} (hu : NetURL.sample.Built u) :
    sampleParse (sampleString u) = .ok u := by
  obtain ⟨scheme, user, host, rawQuery, fragment⟩ := u
  obtain ⟨rfl, huser, q, rfl⟩ := hu
  obtain ⟨user, rfl⟩ := Option.isSome_iff_exists.mp huser
  obtain ⟨hu1, hu2, hu3, -, -⟩ := queryEscape_notMem user
  obtain ⟨hh1, hh2, -, -, -⟩ := queryEscape_notMem host
  have hq : 0x23 ∉ NetURL.sample.encode q := fun hmem => by
    rcases encode_sample_mem hmem with ⟨s, hs⟩ | h | h
    · exact (queryEscape_notMem s).1 hs
    · exact absurd h (by decide)
    · exact absurd h (by decide)
  have hp1 : 0x23 ∉ ascii "obsidian://" := by decide
  have hp2 : 0x3f ∉ ascii "obsidian://" := by decide
  -- the components come apart at the separators, from the last one to the first one
  have hfragment : cut 0x23 (ascii "obsidian://" ++ queryEscape user ++ 0x40 :: queryEscape host ++
      0x3f :: NetURL.sample.encode q ++ 0x23 :: queryEscape fragment) = (_, _) :=
    cut_append (by simp [hp1, hu1, hh1, hq]) (queryEscape fragment)
  have hquery : cut 0x3f (ascii "obsidian://" ++ queryEscape user ++ 0x40 :: queryEscape host ++
      0x3f :: NetURL.sample.encode q) = (_, _) :=
    cut_append (by simp [hp2, hu2, hh2]) (NetURL.sample.encode q)
  have hdrop : (ascii "obsidian://" ++ queryEscape user ++ 0x40 :: queryEscape host).drop 11 =
      queryEscape user ++ 0x40 :: queryEscape host := by
    rw [List.append_assoc]
    exact List.drop_left' (by decide)
  have hstart : (ascii "obsidian://").isPrefixOf (ascii "obsidian://" ++ queryEscape user ++
      0x40 :: queryEscape host ++ 0x3f :: NetURL.sample.encode q ++ 0x23 :: queryEscape fragment) =
      true := by
    rw [List.isPrefixOf_iff_prefix]
    simp only [List.append_assoc]
    exact List.prefix_append _ _
  simp only [sampleParse, sampleString, Option.getD_some, hfragment, hquery, hdrop,
    cut_append hu3, queryUnescape_queryEscape, hstart, if_true]

theorem NetURL.sample_lawful : NetURL.sample.Lawful where
  parse_string _ hu := parse_string_sample hu
  query_encode q key := by rw [query_encode_sample]
  string_scheme u _ := by
    change _ <+: sampleString u
    unfold sampleString
    simp only [List.append_assoc]
    exact List.prefix_append _ _
  string_visible u hu c hc := by
    obtain ⟨-, -, q, hq⟩ := hu
    have hlit : ∀ c ∈ ascii "obsidian://", 0x21 ≤ c ∧ c ≤ 0x7e := by decide +kernel
    change c ∈ sampleString u at hc
    simp only [sampleString, List.mem_append, List.mem_cons, hq] at hc
    rcases hc with (((hc | hc) | rfl | hc) | rfl | hc) | rfl | hc
    · exact hlit c hc
    · exact queryEscape_visible hc
    · decide
    · exact queryEscape_visible hc
    · decide
    · rcases encode_sample_mem hc with ⟨s, hs⟩ | rfl | rfl
      · exact queryEscape_visible hs
      · decide
      · decide
    · decide
    · exact queryEscape_visible hc
  toLower_ascii _ _ := rfl
  toLower_toLower s := by
    have hall : ∀ n < 256, asciiLower (asciiLower (UInt8.ofNat n)) = asciiLower (UInt8.ofNat n) := by
      decide +kernel
    change (s.map asciiLower).map asciiLower = s.map asciiLower
    rw [List.map_map]
    refine List.map_congr_left fun c _ => ?_
    have := hall c.toNat c.toNat_lt
    rwa [UInt8.ofNat_toNat] at this

/-- A number of junk frames is read, but not written. -/
theorem junk_lost : ∃ cfg cfg',
    NetURL.sample.parseURI (ascii "obsidian://aa@h:8443?junk=3") = .ok cfg ∧ cfg.junkCount = 3 ∧
    NetURL.sample.parseURI (NetURL.sample.encodeURI cfg []) = .ok cfg' ∧ cfg'.junkCount = 7 := by
  refine ⟨{ defaultClientConfig with
      serverHost := ascii "h", serverPort := ascii "8443", serverPublicKey := ascii "aa"
      udpPort := ascii "8443", junkCount := 3 },
    { defaultClientConfig with
      serverHost := ascii "h", serverPort := ascii "8443", serverPublicKey := ascii "aa"
      udpPort := ascii "8443" }, ?_, rfl, ?_, rfl⟩
  · decide +kernel
  · decide +kernel

/-- A configuration with other parameters comes back. -/
theorem other_parameters_kept : ∃ cfg,
    NetURL.sample.parseURI (ascii "vpn://AA@[::1]?nt=yes&mtu=1300&d=9.9.9.9&sni=a.b&m=3#x%20y") =
      .ok cfg ∧ cfg.mtu = 1300 ∧
    NetURL.sample.parseURI (NetURL.sample.encodeURI cfg []) = .ok cfg := by
  have hcfg : ∃ cfg, NetURL.sample.parseURI
      (ascii "vpn://AA@[::1]?nt=yes&mtu=1300&d=9.9.9.9&sni=a.b&m=3#x%20y") = .ok cfg ∧
      cfg.mtu = 1300 ∧ cfg = { defaultClientConfig with
        serverHost := ascii "::1", serverPort := ascii "8443", serverPublicKey := ascii "aa"
        udpPort := ascii "8443", noTLS := true, mtu := 1300, dns := ascii "9.9.9.9"
        realityEnabled := true, realitySNI := ascii "a.b", sni := ascii "a.b"
        fingerprint := ascii "chrome", maxDevices := 3, label := ascii "x y" } :=
    ⟨_, by decide +kernel, rfl, rfl⟩
  obtain ⟨cfg, hparse, hmtu, rfl⟩ := hcfg
  refine ⟨_, hparse, hmtu, (roundTrip_iff NetURL.sample_lawful hparse).mpr ?_⟩
  exact ⟨by decide, .inl (by decide), by decide, rfl, rfl, ⟨rfl, rfl, rfl⟩, ⟨rfl, rfl⟩, rfl, rfl⟩

end Samples

end ObsidianVPN.Uri
