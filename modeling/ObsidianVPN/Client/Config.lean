import ObsidianVPN.Handshake.Trains
import ObsidianVPN.Protocol.Tunnel

/-!
# The client's configuration

The fields of `ClientConfig` that decide about obfuscation, and the way from them to the
`ObfuscationConfig` of a session: the defaults, then the profile, then the fields that are set.

* `defaultClientConfig`: the defaults of `ParseURI` and of the example configuration;
* `normalizeProfile`, `applyProfile`, `makeObfConfig`, `ClientConfig.obfuscation`;
* **`obfuscation_junk`**, **`obfuscation_padding`**: bounds on the obfuscation of every session.
-/

namespace ObsidianVPN.Client

open ByteStr GoString Handshake Protocol

/-! ## Profiles -/

inductive Profile where
  | fastSecure
  | balanced
  | stealth
  deriving DecidableEq, Repr

/-- `NormalizeProfile`: an unknown name means `fast-secure`. -/
def normalizeProfile (profile : String) : Profile :=
  if profile = "balanced" then .balanced
  else if profile = "stealth" then .stealth
  else .fastSecure

def applyProfile (profile : String) (tc : TunnelConfig) (oc : ObfuscationConfig) :
    TunnelConfig × ObfuscationConfig :=
  match normalizeProfile profile with
  | .stealth =>
    ({ tc with
        useBucketPadding := true
        bucketMTU := 1360
        maxTrailer := 64 },
      { oc with
        maxTrailer := 64
        junkCount := max oc.junkCount 4
        junkMin := max oc.junkMin 96
        junkMax := max oc.junkMax 768
        s1Min := max oc.s1Min 96
        s1Max := max oc.s1Max 384
        s2Min := max oc.s2Min 96
        s2Max := max oc.s2Max 384 })
  | .balanced =>
    ({ tc with
        dataPadMin := 0
        dataPadMax := 0
        useBucketPadding := false
        bucketMTU := 1360
        maxTrailer := 0 },
      { oc with maxTrailer := 0 })
  | .fastSecure =>
    ({ tc with
        dataPadMin := 0
        dataPadMax := 0
        useBucketPadding := false
        bucketMTU := 1360
        maxTrailer := 0 },
      { oc with
        maxTrailer := 0
        junkCount := max oc.junkCount 3
        junkMin := max oc.junkMin 64
        junkMax := max oc.junkMax 512
        s1Min := max oc.s1Min 64
        s1Max := max oc.s1Max 256
        s2Min := max oc.s2Min 64
        s2Max := max oc.s2Max 256
        prePadMax := max oc.prePadMax 64 })

/-! ## Client configurations -/

structure ClientConfig where
  noTLS : Bool
  realityEnabled : Bool
  realityAuthKey : String
  realitySNI : String
  profile : String
  junkCount : Int64
  junkMin : Int64
  junkMax : Int64
  maxTrailer : Int64
  signatures : List Bytes

def defaultClientConfig : ClientConfig where
  noTLS := false
  realityEnabled := false
  realityAuthKey := ""
  realitySNI := ""
  profile := "fast-secure"
  junkCount := 7
  junkMin := 50
  junkMax := 1000
  maxTrailer := 0
  signatures :=
    [ascii "<b 0xc00000000108><rc 8><b 0x08><rc 8><b 0x0044b000000001><r 1170>",
      ascii ("<r 2><b 0x010000010000000000010377777706676f6f676c6503636f6d" ++
        "00000100010000291000000000000000>")]

def ClientConfig.isReality (cfg : ClientConfig) : Bool :=
  cfg.realityEnabled || cfg.realityAuthKey ≠ "" || cfg.realitySNI ≠ ""

/-- `DefaultTunnelConfig`. -/
def defaultTunnelConfig : TunnelConfig where
  maxSessionDuration := 6 * 60 * minute
  maxSessionPackets := 2 ^ 48
  dataPadMin := 0
  dataPadMax := 0
  useBucketPadding := false
  bucketMTU := 1360
  maxTrailer := 0

/-- A field that is set replaces the value of the profile. -/
def override (field : Int64) (value : ℤ) : ℤ := if field.toInt > 0 then field.toInt else value

/-- `MakeObfConfig`; a signature that does not parse is left out. -/
def makeObfConfig (cfg : ClientConfig) (oc : ObfuscationConfig) : ObfuscationConfig :=
  { oc with
    junkCount := override cfg.junkCount oc.junkCount
    junkMin := override cfg.junkMin oc.junkMin
    junkMax := override cfg.junkMax oc.junkMax
    maxTrailer := override cfg.maxTrailer oc.maxTrailer
    signatures :=
      if cfg.signatures.length > 0 then cfg.signatures.filterMap fun s => (parseCPS s).toOption
      else oc.signatures }

/-- The obfuscation of a session, as `NewSession` computes it. -/
def ClientConfig.obfuscation (cfg : ClientConfig) : ObfuscationConfig :=
  makeObfConfig cfg (applyProfile cfg.profile defaultTunnelConfig defaultObfuscationConfig).2

theorem override_mem (field : Int64) {value : ℤ} (hpos : 0 < value) (hlt : value < 2 ^ 63) :
    0 < override field value ∧ override field value < 2 ^ 63 := by
  have hfield := field.toInt_lt
  unfold override
  split <;> omega

/-- What every profile makes of the defaults: junk is on, and the padding is short. -/
theorem applyProfile_bounds (profile : String) :
    let oc := (applyProfile profile defaultTunnelConfig defaultObfuscationConfig).2
    (0 < oc.junkCount ∧ oc.junkCount < 2 ^ 63) ∧ (0 < oc.junkMin ∧ oc.junkMin < 2 ^ 63) ∧
      (0 < oc.junkMax ∧ oc.junkMax < 2 ^ 63) ∧ 0 ≤ oc.s1Min ∧ oc.s1Min ≤ 384 ∧ oc.s1Max ≤ 384 := by
  unfold applyProfile
  cases normalizeProfile profile <;> decide

/-- **Every session sends junk**, of sizes the source can allocate. -/
theorem obfuscation_junk (cfg : ClientConfig) : cfg.obfuscation.SendsJunk := by
  obtain ⟨hc, hmin, hmax, -⟩ := applyProfile_bounds cfg.profile
  exact ⟨(override_mem cfg.junkCount hc.1 hc.2).1, (override_mem cfg.junkMin hmin.1 hmin.2).1.le,
    (override_mem cfg.junkMax hmax.1 hmax.2).2⟩

/-- **The padding of every session** is at most 384 bytes long. -/
theorem obfuscation_padding (cfg : ClientConfig) :
    0 ≤ cfg.obfuscation.s1Min ∧ cfg.obfuscation.s1Min ≤ 384 ∧ cfg.obfuscation.s1Max ≤ 384 :=
  (applyProfile_bounds cfg.profile).2.2.2

end ObsidianVPN.Client
