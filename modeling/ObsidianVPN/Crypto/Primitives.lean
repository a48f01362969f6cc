import ObsidianVPN.Crypto.Suite
import ObsidianVPN.Lib.GoString

/-!
# The byte-level suite

`Primitives` are the functions of the Go standard library and of `golang.org/x/crypto` that the
source calls; `Primitives.Lawful` is what their documentation promises. `Primitives.suite` builds
the operations of `Suite Bytes` from them the way `crypto.go` does.

* `hmacSHA256`: HMAC over SHA-256, as in RFC 2104;
* `Primitives.suite`: `DHSafe`, `DeriveKeys`, `DeriveHybridSecret`, `DeriveTCPHeaderKeys`,
  `Cipher.nonce`, the ML-KEM wrappers and the cuts of the handshake plaintexts;
* `nonceAt_injOn`: nonces with different counters below `2 ^ 64` differ;
* `length_deriveKeys`, `dhSafe_comm`, `wrap64_sub_getTime_putTime`: what the laws say about the suite;
* `Primitives.sample`: checksums in place of the real functions; they satisfy the laws
  (`sample_lawful`), so that theorems about lawful primitives can be run.
-/

namespace ObsidianVPN

open ByteStr GoString

def keySize : ℕ := 32
def nonceSize : ℕ := 12
def tagSize : ℕ := 16
def sessionIDSize : ℕ := 16
def mlkemEncapsulationKeySize : ℕ := 1184
def mlkemCiphertextSize : ℕ := 1088

/-- The library functions the source calls. Keys of ML-KEM are their byte encodings, and the
random coins of `Encapsulate` are an argument. -/
structure Primitives where
  sha256 : Bytes → Bytes
  aeadSeal : (key nonce plaintext aad : Bytes) → Bytes
  aeadOpen : (key nonce ciphertext aad : Bytes) → Option Bytes
  /-- The ChaCha20 key stream. -/
  chacha20 : (key nonce : Bytes) → ℕ → UInt8
  /-- `curve25519.X25519`; `none` is its error on a low order point. -/
  x25519 : (scalar point : Bytes) → Option Bytes
  /-- `X25519` on the base point. -/
  x25519Base : (scalar : Bytes) → Bytes
  hkdfExtract : (secret salt : Bytes) → Bytes
  /-- The first bytes of the stream `hkdf.New(sha256.New, secret, salt, info)`. -/
  hkdf : (secret salt info : Bytes) → ℕ → Bytes
  mlkemEncapsulationKey : (decKey : Bytes) → Bytes
  /-- `NewEncapsulationKey768` accepts the bytes. -/
  mlkemParses : Bytes → Bool
  /-- The shared key and the ciphertext. -/
  mlkemEncapsulate : (encKey coins : Bytes) → Bytes × Bytes
  mlkemDecapsulate : (decKey ciphertext : Bytes) → Option Bytes
  /-- `strings.ToLower`. -/
  toLower : Bytes → Bytes

/-- The AEAD is correct: `Open` undoes `Seal`, which adds a tag. -/
structure Primitives.AEADLawful (P : Primitives) : Prop where
  aeadOpen_aeadSeal : ∀ k n p a, P.aeadOpen k n (P.aeadSeal k n p a) a = some p
  length_aeadSeal : ∀ k n p a, (P.aeadSeal k n p a).length = p.length + tagSize

/-- The documented behaviour of the library functions. -/
structure Primitives.Lawful (P : Primitives) : Prop extends P.AEADLawful where
  length_sha256 : ∀ m, (P.sha256 m).length = 32
  /-- Two key pairs agree on a secret, which is not the all-zero string. -/
  x25519_comm : ∀ a b : Bytes, a.length = keySize → b.length = keySize →
    ∃ s, P.x25519 a (P.x25519Base b) = some s ∧ P.x25519 b (P.x25519Base a) = some s ∧
      s ≠ List.replicate keySize 0
  length_x25519Base : ∀ a : Bytes, a.length = keySize → (P.x25519Base a).length = keySize
  length_hkdf : ∀ s salt info n, (P.hkdf s salt info n).length = n
  length_mlkemEncapsulationKey : ∀ dk, (P.mlkemEncapsulationKey dk).length = mlkemEncapsulationKeySize
  mlkemParses_encapsulationKey : ∀ dk, P.mlkemParses (P.mlkemEncapsulationKey dk) = true
  length_mlkemCiphertext : ∀ ek coins, (P.mlkemEncapsulate ek coins).2.length = mlkemCiphertextSize
  /-- Decapsulation returns the encapsulated key. -/
  mlkemDecapsulate_encapsulate : ∀ dk coins,
    P.mlkemDecapsulate dk (P.mlkemEncapsulate (P.mlkemEncapsulationKey dk) coins).2 =
      some (P.mlkemEncapsulate (P.mlkemEncapsulationKey dk) coins).1

/-! ## HMAC -/

/-- The block-sized key of HMAC: a long key is hashed first, then zeros are appended. -/
def hmacKey (sha256 : Bytes → Bytes) (key : Bytes) : Bytes :=
  let k := if key.length > 64 then sha256 key else key
  k ++ List.replicate (64 - k.length) 0

/-- HMAC over SHA-256 (RFC 2104). -/
def Primitives.hmacSHA256 (P : Primitives) (key data : Bytes) : Bytes :=
  let k := hmacKey P.sha256 key
  P.sha256 (k.map (· ^^^ 0x5c) ++ P.sha256 (k.map (· ^^^ 0x36) ++ data))

/-! ## `crypto.go` -/

namespace Primitives

variable (P : Primitives)

def dhSafe (priv peerPub : Bytes) : Except String Bytes :=
  match P.x25519 priv peerPub with
  | none => .error "crypto/ecdh: bad X25519 remote ECDH input: low order point"
  | some shared =>
    if shared = List.replicate keySize 0 then
      .error "DH produced all-zero shared secret (possible attack)"
    else .ok shared

def deriveKeys (sharedSecret salt clientPub serverPub : Bytes) : SessionKeys Bytes :=
  let buf := P.hkdf sharedSecret salt (ascii "obsidian_v2" ++ clientPub ++ serverPub) 120
  { clientKey := slice buf 0 32
    serverKey := slice buf 32 32
    clientIV := slice buf 64 12
    serverIV := slice buf 76 12
    sessionID := slice buf 88 16
    dynamicMagic := slice buf 104 16 }

def deriveHybridSecret (ssX25519 ssMLKEM salt : Bytes) : Bytes :=
  let salt := if salt.length = 0 then ascii "obsidian_hybrid_x25519_mlkem768_v1" else salt
  P.hkdfExtract (ssX25519 ++ ssMLKEM) salt

def deriveTCPHeaderKeys (sk : SessionKeys Bytes) : Bytes × Bytes :=
  let okm := P.hkdf (sk.clientKey ++ sk.serverKey) sk.sessionID (ascii "obsidian_tcp_header_v2") 64
  (slice okm 0 32, slice okm 32 32)

/-- `Cipher.nonce`: the counter, little endian, is added into the first eight bytes. -/
def nonceAt (baseIV : Bytes) (ctr : ℕ) : Bytes :=
  xorBytes baseIV (putLE 8 ctr ++ List.replicate 4 0)

def encapsulateMLKEM (encKey coins : Bytes) : Except String (Bytes × Bytes) :=
  if encKey.length ≠ mlkemEncapsulationKeySize then
    .error s!"invalid ml-kem encapsulation key size: {encKey.length}, expected 1184"
  else if P.mlkemParses encKey then .ok (P.mlkemEncapsulate encKey coins)
  else .error "parse ml-kem encapsulation key: mlkem: invalid polynomial encoding"

def decapsulateMLKEM (decKey ciphertext : Bytes) : Except String Bytes :=
  if ciphertext.length ≠ mlkemCiphertextSize then
    .error s!"invalid ml-kem ciphertext size: {ciphertext.length}, expected 1088"
  else
    match P.mlkemDecapsulate decKey ciphertext with
    | some k => .ok k
    | none => .error "mlkem: invalid ciphertext length"

def splitIdentity (identity : Bytes) : Option (Identity Bytes) :=
  if identity.length < 16 + keySize + 8 + 32 then none
  else some
    { magic := slice identity 0 16
      staticPub := slice identity 16 keySize
      ts := slice identity (16 + keySize) 8
      proof := slice identity (16 + keySize + 8) 32 }

def splitConfirm (confirm : Bytes) : Option (Confirm Bytes) :=
  if confirm.length ≠ 16 + sessionIDSize + 32 then none
  else some
    { magic := slice confirm 0 16
      sessionID := slice confirm 16 sessionIDSize
      proof := confirm.drop (16 + sessionIDSize) }

def suite : Suite Bytes where
  zeroKey := List.replicate keySize 0
  dhSafe := P.dhSafe
  deriveKeys := P.deriveKeys
  deriveHybridSecret := P.deriveHybridSecret
  deriveTCPHeaderKeys := P.deriveTCPHeaderKeys
  hmacSHA256 := P.hmacSHA256
  nonceAt := nonceAt
  aeadSeal := P.aeadSeal
  aeadOpen := P.aeadOpen
  encapsulateMLKEM := P.encapsulateMLKEM
  decapsulateMLKEM := P.decapsulateMLKEM
  cat := List.flatten
  putTime t := putBE 8 (t % 2 ^ 64).toNat
  getTime b := wrap64 (getBE b)
  splitIdentity := splitIdentity
  splitConfirm := splitConfirm
  serverAuthLabel := ascii "obsidian_server_auth_v1"

end Primitives

/-! ## Nonces -/

/-- **Counters below `2 ^ 64` give different nonces** under one base IV. -/
theorem nonceAt_injOn {baseIV : Bytes} (hiv : baseIV.length = nonceSize) {i j : ℕ}
    (hi : i < 2 ^ 64) (hj : j < 2 ^ 64)
    (h : Primitives.nonceAt baseIV i = Primitives.nonceAt baseIV j) : i = j := by
  have hlen : ∀ n, (putLE 8 n ++ List.replicate 4 (0 : UInt8)).length = baseIV.length := by
    intro n; simp [hiv, nonceSize]
  simp only [Primitives.nonceAt] at h
  rw [xorBytes_comm baseIV, xorBytes_comm baseIV] at h
  have := xorBytes_injective baseIV (hlen i).le (hlen j).le h
  exact putLE_injOn (by simpa using hi) (by simpa using hj) (List.append_inj_left this (by simp))

/-! ## Lawful primitives -/

section Laws

variable {P : Primitives}

theorem length_deriveKeys (hP : P.Lawful) (secret salt a b : Bytes) :
    (P.deriveKeys secret salt a b).dynamicMagic.length = 16 ∧
      (P.deriveKeys secret salt a b).sessionID.length = sessionIDSize ∧
      (P.deriveKeys secret salt a b).clientIV.length = nonceSize ∧
      (P.deriveKeys secret salt a b).serverIV.length = nonceSize := by
  refine ⟨length_slice ?_, length_slice ?_, length_slice ?_, length_slice ?_⟩ <;>
    rw [hP.length_hkdf] <;> decide

theorem length_hmacSHA256 (hP : P.Lawful) (key data : Bytes) :
    (P.hmacSHA256 key data).length = 32 := hP.length_sha256 _

theorem dhSafe_comm (hP : P.Lawful) {a b : Bytes} (ha : a.length = keySize)
    (hb : b.length = keySize) :
    ∃ s, P.dhSafe a (P.x25519Base b) = .ok s ∧ P.dhSafe b (P.x25519Base a) = .ok s := by
  obtain ⟨s, hab, hba, hs⟩ := hP.x25519_comm a b ha hb
  exact ⟨s, by simp only [Primitives.dhSafe, hab, if_neg hs],
    by simp only [Primitives.dhSafe, hba, if_neg hs]⟩

/-- A timestamp on the wire is as far from the clock as the time it was taken from. -/
theorem wrap64_sub_getTime_putTime (now t : ℤ) :
    wrap64 (now - P.suite.getTime (P.suite.putTime t)) = wrap64 (now - t) := by
  have hget : P.suite.getTime (P.suite.putTime t) = wrap64 t := by
    have hlt : (t % 2 ^ 64).toNat < 256 ^ 8 := by
      have := Int.emod_lt_of_pos t (by decide : (0 : ℤ) < 2 ^ 64)
      omega
    have hnn := Int.emod_nonneg t (by decide : (2 ^ 64 : ℤ) ≠ 0)
    simp only [Primitives.suite]
    rw [getBE_putBE_of_lt hlt, Int.toNat_of_nonneg hnn, wrap64_emod]
  rw [hget]
  exact Int.sub_bmod_bmod

end Laws

/-! ## A small instance -/

/-- The first `n` bytes, with zeros added where there are fewer. -/
def zeroPad (n : ℕ) (m : Bytes) : Bytes := (m ++ List.replicate n 0).take n

theorem length_zeroPad (n : ℕ) (m : Bytes) : (zeroPad n m).length = n := by
  simp [zeroPad]

/-- The last 32 bytes, in place of a hash. -/
def sampleHash (m : Bytes) : Bytes := zeroPad 32 m.reverse

/-- A 16-byte tag, in place of the one of the AEAD. -/
def sampleTag (k n p a : Bytes) : Bytes := zeroPad tagSize (p ++ a ++ n ++ k).reverse

/-- Checksums in place of the real functions. -/
def Primitives.sample : Primitives where
  sha256 := sampleHash
  aeadSeal k n p a := p ++ sampleTag k n p a
  aeadOpen k n c a :=
    let p := c.take (c.length - tagSize)
    if c = p ++ sampleTag k n p a then some p else none
  chacha20 k _ i := k.headD 0 + UInt8.ofNat i
  x25519 a b := some (1 :: xorBytes a.tail b.tail)
  x25519Base a := a
  hkdfExtract s salt := sampleHash (salt ++ s)
  hkdf s salt info n := fill n fun i => (s ++ salt ++ info).sum + UInt8.ofNat i
  mlkemEncapsulationKey dk := zeroPad mlkemEncapsulationKeySize dk
  mlkemParses _ := true
  mlkemEncapsulate _ coins := (zeroPad 32 coins, zeroPad mlkemCiphertextSize (zeroPad 32 coins))
  mlkemDecapsulate _ c := some (c.take 32)
  toLower s := s.map fun c => if 0x41 ≤ c ∧ c ≤ 0x5a then c + 0x20 else c

theorem sample_lawful : Primitives.sample.Lawful where
  length_sha256 m := length_zeroPad _ _
  aeadOpen_aeadSeal k n p a := by
    have ht : (p ++ sampleTag k n p a).take ((p ++ sampleTag k n p a).length - tagSize) = p := by
      simp [sampleTag, length_zeroPad]
    simp only [Primitives.sample, ht, if_true]
  length_aeadSeal k n p a := by
    simp only [Primitives.sample, List.length_append, sampleTag, length_zeroPad]
  x25519_comm a b _ _ := by
    refine ⟨1 :: xorBytes a.tail b.tail, rfl, ?_, ?_⟩
    · simp only [Primitives.sample]
      rw [xorBytes_comm]
    · intro h
      exact absurd (List.cons.inj h).1 (by decide)
  length_x25519Base _ ha := ha
  length_hkdf s salt info n := length_fill _ _
  length_mlkemEncapsulationKey _ := length_zeroPad _ _
  mlkemParses_encapsulationKey _ := rfl
  length_mlkemCiphertext _ _ := length_zeroPad _ _
  mlkemDecapsulate_encapsulate dk coins := by
    have hk : (zeroPad mlkemCiphertextSize (zeroPad 32 coins)).take 32 = zeroPad 32 coins := by
      rw [zeroPad, List.take_take, List.take_append_of_le_length (by
        rw [length_zeroPad]; exact Nat.min_le_left _ _)]
      exact List.take_of_length_le (by rw [length_zeroPad]; decide)
    simp only [Primitives.sample, hk]

end ObsidianVPN
