import ObsidianVPN.Crypto.Primitives
import ObsidianVPN.Handshake.Core
import ObsidianVPN.Handshake.Cps
import ObsidianVPN.Protocol.Framer

/-!
# Handshake messages on the wire

The fields of `Handshake.Core` between random pre-padding and random trailing padding. Random draws,
the clock (in nanoseconds) and the coins of the encapsulation are arguments.

* `encodeClientHello`, `parseClientHello`, `encodeServerHello`, `parseServerHello`;
  **`parseClientHello_encode`**, **`parseServerHello_encode`**: the fields read back, whatever the
  padding and whatever follows them;
* `buildHello`, `processClientHello`, `processServerHello`: the three functions of the source, with
  `buildHello_ok`, `processClientHello_ok`, `processServerHello_ok` for the runs that succeed.
-/

namespace ObsidianVPN.Handshake

open ByteStr GoString Protocol

/-! ## Padding -/

structure ObfuscationConfig where
  junkCount : ℤ
  junkMin : ℤ
  junkMax : ℤ
  s1Min : ℤ
  s1Max : ℤ
  s2Min : ℤ
  s2Max : ℤ
  prePadMax : ℤ
  maxTrailer : ℤ
  signatures : List CPSSignature
  headers : HeaderConfig

def defaultObfuscationConfig : ObfuscationConfig where
  junkCount := 3
  junkMin := 64
  junkMax := 512
  s1Min := 64
  s1Max := 256
  s2Min := 64
  s2Max := 256
  prePadMax := 64
  maxTrailer := 32
  signatures := []
  headers := defaultHeaderConfig

/-- The random choices for the padding of one message. -/
structure PadDraws where
  size : ℕ
  bytes : ℕ → UInt8
  preSize : UInt8
  preBytes : ℕ → UInt8

/-- A fresh slice of random bytes. -/
def makeRandom (n : ℤ) (bytes : ℕ → UInt8) : Except String Bytes :=
  if n < 0 then .error "panic: makeslice: len out of range" else .ok (fill n.toNat bytes)

def randomPadding (min max : ℤ) (r : PadDraws) : Except String Bytes :=
  if max ≤ min then makeRandom min r.bytes
  else
    match intN (wrap64 (max - min)) r.size with
    | .error err => .error err
    | .ok n => makeRandom (min + n) r.bytes

def prePadding (maxLen : ℤ) (r : PadDraws) : Bytes :=
  if maxLen ≤ 0 then [] else fill (r.preSize.toNat % (maxLen + 1)).toNat r.preBytes

theorem length_prePadding_le (maxLen : ℤ) (r : PadDraws) : (prePadding maxLen r).length ≤ 255 := by
  unfold prePadding
  split
  · simp
  · have hlt := r.preSize.toNat_lt
    obtain ⟨k, hk⟩ := Int.eq_ofNat_of_zero_le (by omega : 0 ≤ maxLen + 1)
    have hle := Nat.mod_le r.preSize.toNat k
    rw [length_fill, hk, ← Int.natCast_mod, Int.toNat_natCast]
    omega

theorem randomPadding_ok {min max : ℤ} (h : 0 ≤ min ∧ max < 2 ^ 63) (r : PadDraws) :
    ∃ b, randomPadding min max r = .ok b ∧ (b.length : ℤ) ≤ Max.max min max := by
  obtain ⟨hmin, hmax⟩ := h
  unfold randomPadding makeRandom
  by_cases hle : max ≤ min
  · rw [if_pos hle, if_neg (by omega)]
    exact ⟨_, rfl, by rw [length_fill]; omega⟩
  · have hmod := Int.emod_nonneg (r.size : ℤ) (by omega : max - min ≠ 0)
    have hlt := Int.emod_lt_of_pos (r.size : ℤ) (by omega : 0 < max - min)
    rw [if_neg hle, intN, wrap64_of_bounds (by omega) (by omega), if_neg (by omega)]
    simp only
    rw [if_neg (by omega)]
    exact ⟨_, rfl, by rw [length_fill]; omega⟩

/-! ## Messages -/

def encodeClientHello (prePad : Bytes) (h : ClientHello Bytes) (trailer : Bytes) : Bytes :=
  putBE 1 prePad.length ++ prePad ++
    (h.ephPub ++ (h.mlkemPub ++ (h.salt ++ (putBE 2 h.encIdentity.length ++
      (h.encIdentity ++ trailer)))))

def encodeServerHello (prePad : Bytes) (h : ServerHello Bytes) (trailer : Bytes) : Bytes :=
  putBE 1 prePad.length ++ prePad ++
    (h.ephPub ++ (h.mlkemCiphertext ++ (putBE 2 h.encConfirm.length ++ (h.encConfirm ++ trailer))))

/-- The part of `ProcessClientHello` that cuts the message. -/
def parseClientHello (data : Bytes) : Except String (ClientHello Bytes) :=
  if data.length < 1 then .error "client hello too short"
  else
    let prePadLen := getBE (slice data 0 1)
    let offset := 1
    if data.length < offset + prePadLen + keySize + mlkemEncapsulationKeySize + 32 + 2 then
      .error "client hello truncated at pre-pad"
    else
      let offset := offset + prePadLen
      let ephPub := slice data offset keySize
      let offset := offset + keySize
      let mlkemPub := slice data offset mlkemEncapsulationKeySize
      let offset := offset + mlkemEncapsulationKeySize
      if data.length < offset + 32 then .error "client hello truncated at salt"
      else
        let salt := slice data offset 32
        let offset := offset + 32
        if data.length < offset + 2 then .error "client hello truncated at enc_len"
        else
          let encLen := getBE (slice data offset 2)
          let offset := offset + 2
          if data.length < offset + encLen then .error "client hello truncated at enc_identity"
          else .ok ⟨ephPub, mlkemPub, salt, slice data offset encLen⟩

/-- The part of `ProcessServerHello` that cuts the message. -/
def parseServerHello (data : Bytes) : Except String (ServerHello Bytes) :=
  if data.length < 1 then .error "server hello too short"
  else
    let prePadLen := getBE (slice data 0 1)
    let offset := 1
    if data.length < offset + prePadLen + keySize + mlkemCiphertextSize + 2 then
      .error "server hello truncated at pre-pad"
    else
      let offset := offset + prePadLen
      let ephPub := slice data offset keySize
      let offset := offset + keySize
      let ciphertext := slice data offset mlkemCiphertextSize
      let offset := offset + mlkemCiphertextSize
      if data.length < offset + 2 then .error "server hello truncated at conf_len"
      else
        let confLen := getBE (slice data offset 2)
        let offset := offset + 2
        if data.length < offset + confLen then .error "server hello truncated at confirm"
        else .ok ⟨ephPub, ciphertext, slice data offset confLen⟩

/-- The fields of a ClientHello have the lengths the parser expects. -/
structure ClientHello.WellSized (h : ClientHello Bytes) : Prop where
  ephPub : h.ephPub.length = keySize
  mlkemPub : h.mlkemPub.length = mlkemEncapsulationKeySize
  salt : h.salt.length = 32
  encIdentity : h.encIdentity.length < 2 ^ 16

structure ServerHello.WellSized (h : ServerHello Bytes) : Prop where
  ephPub : h.ephPub.length = keySize
  mlkemCiphertext : h.mlkemCiphertext.length = mlkemCiphertextSize
  encConfirm : h.encConfirm.length < 2 ^ 16

/-- **The fields of a ClientHello read back**, whatever the padding and the trailing bytes are. -/
theorem parseClientHello_encode {h : ClientHello Bytes} (hh : h.WellSized) {prePad : Bytes}
    (hpre : prePad.length ≤ 255) (trailer : Bytes) :
    parseClientHello (encodeClientHello prePad h trailer) = .ok h := by
  obtain ⟨h1, h2, h3, h4⟩ := hh
  have hp : getBE (putBE 1 prePad.length) = prePad.length := getBE_putBE_of_lt (by omega)
  have he : getBE (putBE 2 h.encIdentity.length) = h.encIdentity.length :=
    getBE_putBE_of_lt (by simpa using h4)
  set data := encodeClientHello prePad h trailer with hdata
  have hlen : data.length = 1 + prePad.length + keySize + mlkemEncapsulationKeySize + 32 + 2 +
      h.encIdentity.length + trailer.length := by
    simp only [hdata, encodeClientHello, List.length_append, length_putBE, h1, h2, h3]; omega
  -- the fields, from left to right
  have s0 : slice data 0 1 = putBE 1 prePad.length := by
    rw [hdata, encodeClientHello, List.append_assoc, slice_zero_append _ _ _ (by simp)]
  have s1 : slice data (1 + prePad.length) keySize = h.ephPub := by
    rw [hdata, encodeClientHello]
    exact slice_middle _ _ _ (by simp) h1.symm
  have s2 : slice data (1 + prePad.length + keySize) mlkemEncapsulationKeySize = h.mlkemPub := by
    rw [hdata, encodeClientHello, ← List.append_assoc _ h.ephPub]
    exact slice_middle _ _ _ (by simp [h1, Nat.add_assoc]) h2.symm
  have s3 : slice data (1 + prePad.length + keySize + mlkemEncapsulationKeySize) 32 = h.salt := by
    rw [hdata, encodeClientHello, ← List.append_assoc _ h.ephPub, ← List.append_assoc _ h.mlkemPub]
    exact slice_middle _ _ _ (by simp [h1, h2, Nat.add_assoc]) h3.symm
  have s4 : slice data (1 + prePad.length + keySize + mlkemEncapsulationKeySize + 32) 2 =
      putBE 2 h.encIdentity.length := by
    rw [hdata, encodeClientHello, ← List.append_assoc _ h.ephPub, ← List.append_assoc _ h.mlkemPub,
      ← List.append_assoc _ h.salt]
    exact slice_middle _ _ _ (by simp [h1, h2, h3, Nat.add_assoc]) (by simp)
  have s5 : slice data (1 + prePad.length + keySize + mlkemEncapsulationKeySize + 32 + 2)
      h.encIdentity.length = h.encIdentity := by
    rw [hdata, encodeClientHello, ← List.append_assoc _ h.ephPub, ← List.append_assoc _ h.mlkemPub,
      ← List.append_assoc _ h.salt, ← List.append_assoc _ (putBE 2 _)]
    exact slice_middle _ _ _ (by simp [h1, h2, h3, Nat.add_assoc]) rfl
  simp only [parseClientHello, s0, hp, s1, s2, s3, s4, he, s5]
  rw [if_neg (by omega), if_neg (by omega), if_neg (by omega), if_neg (by omega), if_neg (by omega)]

/-- **The fields of a ServerHello read back.** -/
theorem parseServerHello_encode {h : ServerHello Bytes} (hh : h.WellSized) {prePad : Bytes}
    (hpre : prePad.length ≤ 255) (trailer : Bytes) :
    parseServerHello (encodeServerHello prePad h trailer) = .ok h := by
  obtain ⟨h1, h2, h3⟩ := hh
  have hp : getBE (putBE 1 prePad.length) = prePad.length := getBE_putBE_of_lt (by omega)
  have he : getBE (putBE 2 h.encConfirm.length) = h.encConfirm.length :=
    getBE_putBE_of_lt (by simpa using h3)
  set data := encodeServerHello prePad h trailer with hdata
  have hlen : data.length = 1 + prePad.length + keySize + mlkemCiphertextSize + 2 +
      h.encConfirm.length + trailer.length := by
    simp only [hdata, encodeServerHello, List.length_append, length_putBE, h1, h2]; omega
  have s0 : slice data 0 1 = putBE 1 prePad.length := by
    rw [hdata, encodeServerHello, List.append_assoc, slice_zero_append _ _ _ (by simp)]
  have s1 : slice data (1 + prePad.length) keySize = h.ephPub := by
    rw [hdata, encodeServerHello]
    exact slice_middle _ _ _ (by simp) h1.symm
  have s2 : slice data (1 + prePad.length + keySize) mlkemCiphertextSize = h.mlkemCiphertext := by
    rw [hdata, encodeServerHello, ← List.append_assoc _ h.ephPub]
    exact slice_middle _ _ _ (by simp [h1, Nat.add_assoc]) h2.symm
  have s3 : slice data (1 + prePad.length + keySize + mlkemCiphertextSize) 2 =
      putBE 2 h.encConfirm.length := by
    rw [hdata, encodeServerHello, ← List.append_assoc _ h.ephPub,
      ← List.append_assoc _ h.mlkemCiphertext]
    exact slice_middle _ _ _ (by simp [h1, h2, Nat.add_assoc]) (by simp)
  have s4 : slice data (1 + prePad.length + keySize + mlkemCiphertextSize + 2) h.encConfirm.length =
      h.encConfirm := by
    rw [hdata, encodeServerHello, ← List.append_assoc _ h.ephPub,
      ← List.append_assoc _ h.mlkemCiphertext, ← List.append_assoc _ (putBE 2 _)]
    exact slice_middle _ _ _ (by simp [h1, h2, Nat.add_assoc]) rfl
  simp only [parseServerHello, s0, hp, s1, s2, s3, he, s4]
  rw [if_neg (by omega), if_neg (by omega), if_neg (by omega), if_neg (by omega)]

/-! ## The three functions -/

section Functions

variable (P : Primitives)

def newKeypair (priv : Bytes) : Keypair Bytes := ⟨priv, P.x25519Base priv⟩

/-- `NewClientHandshakeWithStaticKey`, with the random keys and the salt as arguments. -/
def newClientHandshake (serverStaticPub : Bytes) (static : Keypair Bytes)
    (ephPriv mlkemDecKey salt : Bytes) : ClientHandshake Bytes where
  serverStaticPub := serverStaticPub
  ephemeralKeypair := newKeypair P ephPriv
  mlkemDecKey := mlkemDecKey
  mlkemEncPub := P.mlkemEncapsulationKey mlkemDecKey
  staticKeypair := static
  salt := salt
  sessionKeys := none

/-- `NewServerHandshakeWithConfig`, with the random key as an argument. -/
def newServerHandshake (staticPriv staticPub : Bytes) (allowedClients : Option (List Bytes))
    (ephPriv : Bytes) : ServerHandshake Bytes where
  staticPriv := staticPriv
  staticPub := staticPub
  ephKeypair := newKeypair P ephPriv
  allowedClients := allowedClients
  clientStaticPub := List.replicate keySize 0
  sessionKeys := none

/-- `BuildHello`: the message, and the cipher that sealed the identity. -/
def buildHello (cfg : ObfuscationConfig) (c : ClientHandshake Bytes) (now : ℕ) (r : PadDraws) :
    Except String (Bytes × Cipher Bytes) :=
  match c.buildIdentity P.suite (unix now) with
  | .error err => .error err
  | .ok (h, tmpCipher) =>
    match randomPadding cfg.s1Min cfg.s1Max r with
    | .error err => .error err
    | .ok s1 =>
      .ok (encodeClientHello (prePadding cfg.prePadMax r) h (putBE 2 s1.length ++ s1), tmpCipher)

/-- The framer of a finished handshake. -/
def protectedFramer (cfg : ObfuscationConfig) (k : FramerKeys Bytes) : StreamFramer :=
  { newProtectedStreamFramer k.enc k.dec k.encHeaderKey k.decHeaderKey with headerCfg := cfg.headers }

/-- What an accepted ClientHello leads to: the ServerHello, the server's framer, and the cipher that
sealed the confirmation. -/
structure Accepted where
  hello : Bytes
  framer : StreamFramer
  confirmCipher : Cipher Bytes

/-- `ProcessClientHello`. -/
def processClientHello (cfg : ObfuscationConfig) (s : ServerHandshake Bytes) (data : Bytes)
    (now : ℕ) (coins : Bytes) (r : PadDraws) : ServerHandshake Bytes × Except String Accepted :=
  match parseClientHello data with
  | .error err => (s, .error err)
  | .ok h =>
    match s.processFields P.suite h (unix now) coins with
    | (s', .error err) => (s', .error err)
    | (s', .ok resp) =>
      match randomPadding cfg.s2Min cfg.s2Max r with
      | .error err => ({ s' with ephKeypair := s.ephKeypair }, .error err)
      | .ok s2 =>
        (s', .ok
          { hello := encodeServerHello (prePadding cfg.prePadMax r) resp.hello
              (putBE 2 s2.length ++ s2)
            framer := protectedFramer cfg resp.framer
            confirmCipher := resp.confirmCipher })

/-- `ProcessServerHello`. -/
def processServerHello (cfg : ObfuscationConfig) (c : ClientHandshake Bytes) (data : Bytes) :
    ClientHandshake Bytes × Except String StreamFramer :=
  match parseServerHello data with
  | .error err => (c, .error err)
  | .ok h =>
    match c.processFields P.suite h with
    | (c', .error err) => (c', .error err)
    | (c', .ok k) => (c', .ok (protectedFramer cfg k))

variable {P} {cfg : ObfuscationConfig}

theorem buildHello_ok {c : ClientHandshake Bytes} {now : ℕ} {r : PadDraws}
    {out : Bytes × Cipher Bytes} :
    buildHello P cfg c now r = .ok out ↔ ∃ h tmpCipher s1,
      c.buildIdentity P.suite (unix now) = .ok (h, tmpCipher) ∧
      randomPadding cfg.s1Min cfg.s1Max r = .ok s1 ∧
      out = (encodeClientHello (prePadding cfg.prePadMax r) h (putBE 2 s1.length ++ s1),
        tmpCipher) := by
  unfold buildHello
  constructor
  · intro h
    split at h
    · exact absurd h (by simp)
    · rename_i hello tmpCipher hb
      split at h
      · exact absurd h (by simp)
      · rename_i s1 hs1
        exact ⟨hello, tmpCipher, s1, hb, hs1, (Except.ok.inj h).symm⟩
  · rintro ⟨h, tmpCipher, s1, hb, hs1, rfl⟩
    simp only [hb, hs1]

/-- **An accepted ClientHello parses, and its fields are accepted.** -/
theorem processClientHello_ok {s s' : ServerHandshake Bytes} {data coins : Bytes} {now : ℕ}
    {r : PadDraws} {acc : Accepted} :
    processClientHello P cfg s data now coins r = (s', .ok acc) ↔ ∃ h resp s2,
      parseClientHello data = .ok h ∧
      s.processFields P.suite h (unix now) coins = (s', .ok resp) ∧
      randomPadding cfg.s2Min cfg.s2Max r = .ok s2 ∧
      acc =
        { hello := encodeServerHello (prePadding cfg.prePadMax r) resp.hello
            (putBE 2 s2.length ++ s2)
          framer := protectedFramer cfg resp.framer
          confirmCipher := resp.confirmCipher } := by
  unfold processClientHello
  constructor
  · intro hp
    split at hp
    · exact absurd (Prod.mk.inj hp).2 (by simp)
    · rename_i h hparse
      split at hp
      · exact absurd (Prod.mk.inj hp).2 (by simp)
      · rename_i s₁ resp hfields
        split at hp
        · exact absurd (Prod.mk.inj hp).2 (by simp)
        · rename_i s2 hs2
          obtain ⟨rfl, hacc⟩ := Prod.mk.inj hp
          exact ⟨h, resp, s2, hparse, hfields, hs2, (Except.ok.inj hacc).symm⟩
  · rintro ⟨h, resp, s2, hparse, hfields, hs2, rfl⟩
    simp only [hparse, hfields, hs2]

theorem processServerHello_ok {c c' : ClientHandshake Bytes} {data : Bytes} {f : StreamFramer} :
    processServerHello P cfg c data = (c', .ok f) ↔ ∃ h k,
      parseServerHello data = .ok h ∧ c.processFields P.suite h = (c', .ok k) ∧
      f = protectedFramer cfg k := by
  unfold processServerHello
  constructor
  · intro hp
    split at hp
    · exact absurd (Prod.mk.inj hp).2 (by simp)
    · rename_i h hparse
      split at hp
      · exact absurd (Prod.mk.inj hp).2 (by simp)
      · rename_i c₁ k hfields
        obtain ⟨rfl, hf⟩ := Prod.mk.inj hp
        exact ⟨h, k, hparse, hfields, (Except.ok.inj hf).symm⟩
  · rintro ⟨h, k, hparse, hfields, rfl⟩
    simp only [hparse, hfields]

end Functions

end ObsidianVPN.Handshake
