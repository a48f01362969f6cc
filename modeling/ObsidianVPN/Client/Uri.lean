import ObsidianVPN.Lib.Decimal
import ObsidianVPN.Lib.QueryEscape

/-!
# Connection URIs

A client configuration can be handed over as a URI
`obsidian://key@host:port?parameters#label`. `ParseURI` starts from the defaults and reads the
parameters, many of which have a second name; `EncodeURI` writes the configuration, without the
parameters that have their default.

* `ClientConfig`, `defaultClientConfig`: the fields that the two functions touch; the other fields
  keep their zero value;
* `NetURL`: the functions of `net/url`, `strings` and `strconv` that are not spelled out here, and
  `NetURL.Lawful`: what is assumed of them;
* `splitHostPort`, `joinHostPort`: `Hostname` and `Port`, and `net.JoinHostPort`;
* `parseURI`, `encodeURI`.
-/

namespace ObsidianVPN.Uri

open ByteStr GoString Decimal QueryEscape

/-! ## Configurations -/

@[ext]
structure ClientConfig where
  protocolVersion : ℕ
  serverHost : Bytes
  serverPort : Bytes
  serverPublicKey : Bytes
  clientPrivateKey : Bytes
  noTLS : Bool
  realityEnabled : Bool
  realityAuthKey : Bytes
  realitySNI : Bytes
  fingerprint : Bytes
  sni : Bytes
  tunAddress : Bytes
  dns : Bytes
  mtu : ℤ
  /-- A `float64` is given by its bits. -/
  noiseMinSec : UInt64
  noiseMaxSec : UInt64
  keepaliveSec : UInt64
  jitter : Bytes
  profile : Bytes
  junkCount : ℤ
  junkMin : ℤ
  junkMax : ℤ
  signatures : List Bytes
  udpPort : Bytes
  enableUDPData : Bool
  enableIPv6 : Bool
  keyserverURL : Bytes
  token : Bytes
  expires : Bytes
  maxDevices : ℕ
  label : Bytes
  deriving DecidableEq

def defaultClientConfig : ClientConfig where
  protocolVersion := 2
  serverHost := []
  serverPort := []
  serverPublicKey := []
  clientPrivateKey := []
  noTLS := false
  realityEnabled := false
  realityAuthKey := []
  realitySNI := []
  fingerprint := []
  sni := []
  tunAddress := ascii "10.8.0.2/24"
  dns := ascii "1.1.1.1"
  mtu := 1420
  noiseMinSec := 0x4024000000000000 -- 10
  noiseMaxSec := 0x4044000000000000 -- 40
  keepaliveSec := 0x4034000000000000 -- 20
  jitter := ascii "off"
  profile := ascii "fast-secure"
  junkCount := 7
  junkMin := 50
  junkMax := 1000
  signatures :=
    [ascii "<b 0xc00000000108><rc 8><b 0x08><rc 8><b 0x0044b000000001><r 1170>",
      ascii ("<r 2><b 0x010000010000000000010377777706676f6f676c6503636f6d" ++
        "00000100010000291000000000000000>")]
  udpPort := []
  enableUDPData := true
  enableIPv6 := false
  keyserverURL := []
  token := []
  expires := []
  maxDevices := 0
  label := []

/-! ## URLs -/

/-- The fields of `url.URL` that are read or written; the user is the name in `url.Userinfo`. -/
structure URL where
  scheme : Bytes
  user : Option Bytes
  host : Bytes
  rawQuery : Bytes
  fragment : Bytes
  deriving DecidableEq

/-- Query parameters: a name may have several values, in their order. -/
abbrev Values := List (Bytes × Bytes)

/-- All values of a name. -/
def Values.all (q : Values) (key : String) : List Bytes :=
  (q.filter fun p => decide (p.1 = ascii key)).map Prod.snd

/-- `Values.Set`. -/
def Values.set (q : Values) (key : String) (value : Bytes) : Values :=
  (q.filter fun p => decide (p.1 ≠ ascii key)) ++ [(ascii key, value)]

/-- `Values.Set` under a condition. -/
def Values.setIf (q : Values) (c : Prop) [Decidable c] (key : String) (value : Bytes) : Values :=
  if c then q.set key value else q

/-- The functions of other packages. -/
structure NetURL where
  /-- `url.Parse`. -/
  parse : Bytes → Except String URL
  /-- `URL.String`. -/
  string : URL → Bytes
  /-- `URL.Query`, on the text of the parameters. -/
  query : Bytes → Values
  /-- `Values.Encode`. -/
  encode : Values → Bytes
  /-- `strings.ToLower`. -/
  toLower : Bytes → Bytes
  /-- `strconv.ParseFloat`; `none` is an error. -/
  parseFloat : Bytes → Option UInt64

def asciiLower (c : UInt8) : UInt8 := if 0x41 ≤ c ∧ c ≤ 0x5a then c + 0x20 else c

/-- A URL with a user and encoded parameters, as `EncodeURI` builds it. -/
def NetURL.Built (N : NetURL) (u : URL) : Prop :=
  u.scheme = ascii "obsidian" ∧ u.user.isSome = true ∧ ∃ q, u.rawQuery = N.encode q

structure NetURL.Lawful (N : NetURL) : Prop where
  /-- `Parse` undoes `String`. -/
  parse_string : ∀ u, N.Built u → N.parse (N.string u) = .ok u
  /-- `Query` undoes `Encode`. -/
  query_encode : ∀ q key, (N.query (N.encode q)).all key = Values.all q key
  /-- `String` starts with the scheme. -/
  string_scheme : ∀ u, N.Built u → ascii "obsidian://" <+: N.string u
  /-- `String` escapes all that is not visible ASCII. -/
  string_visible : ∀ u, N.Built u → ∀ c ∈ N.string u, 0x21 ≤ c ∧ c ≤ 0x7e
  toLower_ascii : ∀ s : Bytes, (∀ c ∈ s, c < 0x80) → N.toLower s = s.map asciiLower
  toLower_toLower : ∀ s, N.toLower (N.toLower s) = N.toLower s

/-- The host without a pair of brackets around it. -/
def unbracket (host : Bytes) : Bytes :=
  if [0x5b].isPrefixOf host ∧ [0x5d].isSuffixOf host then host.dropLast.tail else host

/-- `URL.Hostname` and `URL.Port`: the port is what comes after the last colon, if these are only
digits. -/
def splitHostPort (hostPort : Bytes) : Bytes × Bytes :=
  let port := (hostPort.reverse.takeWhile fun c => decide (c ≠ 0x3a)).reverse
  if 0x3a ∈ hostPort ∧ port.all isDigit = true then
    (unbracket (hostPort.take (hostPort.length - port.length - 1)), port)
  else (unbracket hostPort, [])

/-- `net.JoinHostPort`. -/
def joinHostPort (host port : Bytes) : Bytes :=
  if 0x3a ∈ host then 0x5b :: host ++ [0x5d, 0x3a] ++ port else host ++ [0x3a] ++ port

/-! ## `ParseURI` -/

/-- The errors of `ParseURI`. -/
inductive ParseError where
  /-- "empty URI" -/
  | emptyURI
  /-- "invalid URI format: " and the error of `url.Parse` -/
  | invalidFormat (err : String)
  /-- "unsupported URI scheme: " and the quoted scheme -/
  | unsupportedScheme (scheme : Bytes)
  /-- "URI is missing host" -/
  | missingHost
  /-- "missing server_public_key in URI (expected userinfo or pk query parameter)" -/
  | missingKey
  deriving DecidableEq

section Parse

variable (N : NetURL)

/-- The prefixes `vpn://obsidian/` and `vpn://` stand for `obsidian://`. -/
def NetURL.normURI (rawURI : Bytes) : Bytes :=
  if (ascii "vpn://obsidian/").isPrefixOf (N.toLower rawURI) then
    ascii "obsidian://" ++ rawURI.drop 15
  else if (ascii "vpn://").isPrefixOf (N.toLower rawURI) then ascii "obsidian://" ++ rawURI.drop 6
  else rawURI

def NetURL.parseBool (s : Bytes) (defaultVal : Bool) : Bool :=
  let s := N.toLower (trimSpace s)
  if s ∈ [ascii "1", ascii "true", ascii "yes", ascii "on"] then true
  else if s ∈ [ascii "0", ascii "false", ascii "no", ascii "off"] then false
  else defaultVal

/-- The parameters as `ParseURI` sees them: the values of each name. -/
abbrev Lookup := String → List Bytes

/-- `Values.Get`: the first value, or the empty string. -/
def Lookup.get (q : Lookup) (key : String) : Bytes := (q key).headD []

/-- The first of the names that has a value which is not empty. -/
def Lookup.first? (q : Lookup) (keys : List String) : Option Bytes :=
  keys.findSome? fun key => if q.get key ≠ [] then some (q.get key) else none

/-- The value of the first of the names, or else the default. -/
def Lookup.text (q : Lookup) (keys : List String) (dflt : Bytes) : Bytes :=
  (q.first? keys).getD dflt

def NetURL.lower (q : Lookup) (keys : List String) (dflt : Bytes) : Bytes :=
  ((q.first? keys).map N.toLower).getD dflt

def NetURL.bool (q : Lookup) (keys : List String) (dflt : Bool) : Bool :=
  ((q.first? keys).map fun val => N.parseBool val dflt).getD dflt

def Lookup.int (q : Lookup) (key : String) (dflt : ℤ) : ℤ := ((q.first? [key]).bind atoi).getD dflt

def NetURL.float (q : Lookup) (key : String) (dflt : UInt64) : UInt64 :=
  ((q.first? [key]).bind N.parseFloat).getD dflt

/-- The MTU is positive and at most 1420. -/
def Lookup.mtu (q : Lookup) (dflt : ℤ) : ℤ :=
  match (q.first? ["mtu"]).bind atoi with
  | some v => if v > 0 then min v 1420 else dflt
  | none => dflt

/-- The label in the fragment, unescaped once more if possible. -/
def labelOf (fragment : Bytes) : Bytes := (queryUnescape fragment).getD fragment

def NetURL.isReality (q : Lookup) : Bool :=
  N.toLower (q.get "security") = ascii "reality" || N.parseBool (q.get "reality") false ||
    N.parseBool (q.get "re") false || q.get "sni" ≠ [] || q.get "auth_key" ≠ []

/-- What the parameters add to a configuration that has its host, port, key and label. -/
def NetURL.readParams (cfg : ClientConfig) (q : Lookup) : ClientConfig :=
  let reality := N.isReality q
  let sni := q.text ["sni", "rs", "reality_sni"] (ascii "www.microsoft.com")
  { cfg with
    udpPort := q.text ["udp_port", "udp"] cfg.serverPort
    enableUDPData := N.bool q ["udp_data", "eu"] cfg.enableUDPData
    enableIPv6 := N.bool q ["ipv6", "v6"] cfg.enableIPv6
    noTLS := N.bool q ["no_tls", "nt"] cfg.noTLS
    realityEnabled := if reality then true else cfg.realityEnabled
    realitySNI := if reality then sni else cfg.realitySNI
    sni := if reality then sni else cfg.sni
    realityAuthKey :=
      if reality then q.text ["auth_key", "rk", "sid", "reality_auth_key"] []
      else cfg.realityAuthKey
    fingerprint :=
      if reality then q.text ["fp", "fingerprint"] (ascii "chrome") else cfg.fingerprint
    profile := q.text ["profile"] cfg.profile
    jitter := q.text ["jitter"] cfg.jitter
    mtu := q.mtu cfg.mtu
    dns := q.text ["dns", "d"] cfg.dns
    tunAddress := q.text ["tun", "tun_address"] cfg.tunAddress
    junkCount := q.int "junk" cfg.junkCount
    junkMin := q.int "junk_min" cfg.junkMin
    junkMax := q.int "junk_max" cfg.junkMax
    noiseMinSec := N.float q "noise_min" cfg.noiseMinSec
    noiseMaxSec := N.float q "noise_max" cfg.noiseMaxSec
    keepaliveSec := N.float q "keepalive" cfg.keepaliveSec
    signatures := if (q "sig").length > 0 then q "sig" else cfg.signatures
    keyserverURL := q.text ["keyserver", "ks"] cfg.keyserverURL
    token := q.text ["token", "t"] cfg.token
    expires := q.text ["expires", "e"] cfg.expires
    maxDevices := ((q.first? ["max_devices", "m"]).bind (parseUint 32)).getD cfg.maxDevices
    clientPrivateKey := N.lower q ["client_key"] cfg.clientPrivateKey }

/-- The key in the place of the user. -/
def NetURL.userKey (u : URL) : Bytes :=
  match u.user with
  | some user => if user ≠ [] then N.toLower user else []
  | none => []

/-- The configuration for a URL with a host. -/
def NetURL.readURL (u : URL) (host port : Bytes) : Except ParseError ClientConfig :=
  let q : Lookup := (N.query u.rawQuery).all
  let key := N.lower q ["pk", "pbk", "server_public_key"] (N.userKey u)
  if key = [] then .error .missingKey
  else .ok (N.readParams
    { defaultClientConfig with
      serverHost := host
      serverPort := if port ≠ [] then port else ascii "8443"
      serverPublicKey := key
      label := if u.fragment ≠ [] then labelOf u.fragment else [] } q)

def NetURL.parseURI (rawURI : Bytes) : Except ParseError ClientConfig :=
  let rawURI := trimSpace rawURI
  if rawURI = [] then .error .emptyURI
  else
    match N.parse (N.normURI rawURI) with
    | .error err => .error (.invalidFormat err)
    | .ok u =>
      if N.toLower u.scheme ≠ ascii "obsidian" ∧ N.toLower u.scheme ≠ ascii "vpn" then
        .error (.unsupportedScheme u.scheme)
      else if (splitHostPort u.host).1 = [] then .error .missingHost
      else N.readURL u (splitHostPort u.host).1 (splitHostPort u.host).2

end Parse

/-! ## `EncodeURI` -/

/-- The port that a configuration without one has. -/
def ClientConfig.port (cfg : ClientConfig) : Bytes :=
  if cfg.serverPort = [] then ascii "8443" else cfg.serverPort

/-- The parameters that are not left out. -/
def ClientConfig.params (cfg : ClientConfig) : Values :=
  let udpPort := if cfg.udpPort = [] then cfg.port else cfg.udpPort
  Values.setIf [] (udpPort ≠ cfg.port) "udp_port" udpPort
  |>.setIf (cfg.enableUDPData = false) "udp_data" (ascii "0")
  |>.setIf (cfg.enableIPv6 = true) "ipv6" (ascii "1")
  |>.setIf (cfg.noTLS = true) "no_tls" (ascii "1")
  |>.setIf (cfg.realityEnabled = true) "security" (ascii "reality")
  |>.setIf (cfg.realityEnabled = true ∧ cfg.realitySNI ≠ []) "sni" cfg.realitySNI
  |>.setIf (cfg.realityEnabled = true ∧ cfg.realityAuthKey ≠ []) "auth_key" cfg.realityAuthKey
  |>.setIf (cfg.realityEnabled = true ∧ cfg.fingerprint ≠ [] ∧ cfg.fingerprint ≠ ascii "chrome") "fp"
    cfg.fingerprint
  |>.setIf (cfg.profile ≠ [] ∧ cfg.profile ≠ ascii "fast-secure") "profile" cfg.profile
  |>.setIf (cfg.mtu ≠ 0 ∧ cfg.mtu ≠ 1420) "mtu" (itoa cfg.mtu)
  |>.setIf (cfg.dns ≠ [] ∧ cfg.dns ≠ ascii "1.1.1.1" ∧ cfg.dns ≠ ascii "10.8.0.1") "dns" cfg.dns
  |>.setIf (cfg.keyserverURL ≠ []) "keyserver" cfg.keyserverURL
  |>.setIf (cfg.token ≠ []) "token" cfg.token
  |>.setIf (cfg.expires ≠ []) "expires" cfg.expires
  |>.setIf (cfg.maxDevices > 0) "max_devices" (formatNat cfg.maxDevices)
  |>.setIf (cfg.clientPrivateKey ≠ []) "client_key" cfg.clientPrivateKey

/-- The host without brackets at either end. -/
def stripBrackets (host : Bytes) : Bytes := trimSuffix [0x5d] (trimPrefix [0x5b] host)

def NetURL.encodeURL (N : NetURL) (cfg : ClientConfig) (label : Bytes) : URL where
  scheme := ascii "obsidian"
  user := some cfg.serverPublicKey
  host := joinHostPort (stripBrackets cfg.serverHost) cfg.port
  rawQuery := N.encode cfg.params
  fragment := if label = [] then cfg.label else label

def NetURL.encodeURI (N : NetURL) (cfg : ClientConfig) (label : Bytes) : Bytes :=
  N.string (N.encodeURL cfg label)

end ObsidianVPN.Uri
