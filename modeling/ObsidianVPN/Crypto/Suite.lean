import ObsidianVPN.Lib.Bytes

/-!
# The operations of the handshake, over any message type

`BuildHello`, `ProcessClientHello` and `ProcessServerHello` combine a fixed set of cryptographic
operations. `Suite M` collects them over a message type `M`, so that one definition of the
handshake is read twice: over byte strings (`Crypto.Primitives`) and over symbolic terms
(`Handshake.Symbolic`).

* `SessionKeys`, `Keypair`, `Identity`, `Confirm`: the records of the source;
* `Cipher`: a key, a base IV and a message counter; `Cipher.encrypt` uses up one counter value;
* `Cipher.seals`: the (key, nonce) pairs an encrypting cipher has used since `NewCipher`.
-/

namespace ObsidianVPN

/-- What `DeriveKeys` cuts out of the HKDF stream. -/
structure SessionKeys (M : Type) where
  clientKey : M
  serverKey : M
  clientIV : M
  serverIV : M
  sessionID : M
  dynamicMagic : M
  deriving DecidableEq, Repr

structure Keypair (M : Type) where
  priv : M
  pub : M
  deriving DecidableEq, Repr

/-- The plaintext of `encIdentity`. -/
structure Identity (M : Type) where
  magic : M
  staticPub : M
  ts : M
  proof : M
  deriving DecidableEq, Repr

/-- The plaintext of `encConfirm`. -/
structure Confirm (M : Type) where
  magic : M
  sessionID : M
  proof : M
  deriving DecidableEq, Repr

/-- The operations of the handshake. -/
structure Suite (M : Type) where
  /-- The all-zero key that `Keypair.Zero` leaves behind. -/
  zeroKey : M
  dhSafe : (priv peerPub : M) → Except String M
  deriveKeys : (sharedSecret salt clientPub serverPub : M) → SessionKeys M
  deriveHybridSecret : (ssX25519 ssMLKEM salt : M) → M
  deriveTCPHeaderKeys : SessionKeys M → M × M
  hmacSHA256 : (key data : M) → M
  /-- The nonce of the message with the given counter under a base IV. -/
  nonceAt : (baseIV : M) → ℕ → M
  aeadSeal : (key nonce plaintext aad : M) → M
  aeadOpen : (key nonce ciphertext aad : M) → Option M
  /-- The shared key and the ciphertext for an encapsulation key and random coins. -/
  encapsulateMLKEM : (encKey coins : M) → Except String (M × M)
  decapsulateMLKEM : (decKey ciphertext : M) → Except String M
  /-- The fields of a message one after the other. -/
  cat : List M → M
  /-- The 8-byte field of a Unix time, and its signed reading. -/
  putTime : ℤ → M
  getTime : M → ℤ
  splitIdentity : M → Option (Identity M)
  splitConfirm : M → Option (Confirm M)
  serverAuthLabel : M

/-! ## Ciphers -/

/-- `Cipher`. The counter is the number of nonces taken so far. -/
structure Cipher (M : Type) where
  key : M
  baseIV : M
  counter : ℕ
  deriving DecidableEq, Repr

variable {M : Type}

def newCipher (key baseIV : M) : Cipher M := ⟨key, baseIV, 0⟩

/-- The nonce the next call takes. -/
def Cipher.nonce (S : Suite M) (c : Cipher M) : M := S.nonceAt c.baseIV c.counter

def Cipher.next (c : Cipher M) : Cipher M := { c with counter := c.counter + 1 }

def Cipher.encrypt (S : Suite M) (c : Cipher M) (plaintext aad : M) : M × Cipher M :=
  (S.aeadSeal c.key (c.nonce S) plaintext aad, c.next)

def Cipher.decrypt (S : Suite M) (c : Cipher M) (ciphertext aad : M) : Option M × Cipher M :=
  (S.aeadOpen c.key (c.nonce S) ciphertext aad, c.next)

/-- The (key, nonce) pairs of the `Seal` calls a cipher has made, if it only encrypts. -/
def Cipher.seals (S : Suite M) (c : Cipher M) : List (M × M) :=
  (List.range c.counter).map fun i => (c.key, S.nonceAt c.baseIV i)

@[simp] theorem seals_newCipher (S : Suite M) (key baseIV : M) :
    (newCipher key baseIV).seals S = [] := rfl

/-- **Each `Encrypt` adds the pair it seals with.** -/
theorem Cipher.seals_encrypt (S : Suite M) (c : Cipher M) (plaintext aad : M) :
    (c.encrypt S plaintext aad).2.seals S = c.seals S ++ [(c.key, c.nonce S)] := by
  simp [Cipher.seals, Cipher.encrypt, Cipher.next, Cipher.nonce, List.range_succ]

end ObsidianVPN
