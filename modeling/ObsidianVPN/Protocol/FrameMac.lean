import ObsidianVPN.Lib.Buffer
import ObsidianVPN.Protocol.Framer

/-!
# The HMAC of the frame lengths

Frame lengths are masked with an HMAC that the framer computes by hand, in buffers on the stack
where they are large enough. Here it is compared with the definition of HMAC.

* `rfc2104`: HMAC over any hash function and block size;
* `xorPad`: the loop that combines the key block with a constant; `xorPad_eq`;
* `fastHmacSHA256StackChecked`: the function with its buffers, where `none` is an access out of
  range; `keyBlock_eq`, `newInnerSlice_eq`: what the buffers hold;
* **`fastHmacSHA256Stack_eq_hmac`**: it is HMAC for every key and all data.
-/

namespace ObsidianVPN.Protocol

open ByteStr Buffer Checksum

/-- HMAC as in RFC 2104, with the hash function and its block size as arguments. -/
def rfc2104 (hash : Bytes → Bytes) (blockSize : ℕ) (key text : Bytes) : Bytes :=
  let k := if blockSize < key.length then hash key else key
  let block := k ++ List.replicate (blockSize - k.length) 0
  let ipad := List.replicate blockSize 0x36
  let opad := List.replicate blockSize 0x5c
  hash (xorBytes block opad ++ hash (xorBytes block ipad ++ text))

/-! ## The source -/

/-- `for i := 0; i < 64; i++ { dst[i] = k[i] ^ pad }`. -/
def xorPad (k : Bytes) (pad : UInt8) (dst : Bytes) : Option Bytes :=
  (List.range 64).foldlM (fun dst i => do writeAt dst i [(← k[i]?) ^^^ pad]) dst

/-- The array `k`: the key, or the hash of a long key. -/
def keyBlock (sha256 : Bytes → Bytes) (key : Bytes) : Option Bytes :=
  let k := List.replicate 64 0
  if key.length > 64 then copyAt k 0 32 (sha256 key) else copyAt k 0 key.length key

/-- `innerSlice`: a part of the array on the stack, or a new slice. -/
def newInnerSlice (dataLen : ℕ) : Option Bytes :=
  let innerBuf := List.replicate (64 + 128) 0
  if 64 + dataLen ≤ innerBuf.length then readAt innerBuf 0 (64 + dataLen)
  else some (List.replicate (64 + dataLen) 0)

/-- `fastHmacSHA256Stack` with its buffers. -/
def fastHmacSHA256StackChecked (sha256 : Bytes → Bytes) (key data : Bytes) : Option Bytes := do
  let k ← keyBlock sha256 key
  let innerSlice ← newInnerSlice data.length
  let innerSlice ← xorPad k 0x36 innerSlice
  let innerSlice ← copyAt innerSlice 64 innerSlice.length data
  let innerHash := sha256 innerSlice
  let outerBuf ← xorPad k 0x5c (List.replicate (64 + 32) 0)
  let outerBuf ← copyAt outerBuf 64 outerBuf.length innerHash
  return sha256 outerBuf

/-! ## The buffers -/

theorem xorPad_prefix {k : Bytes} (pad : UInt8) {dst : Bytes} {n : ℕ} (hk : n ≤ k.length)
    (hdst : n ≤ dst.length) :
    (List.range n).foldlM (fun dst i => do writeAt dst i [(← k[i]?) ^^^ pad]) dst =
      some ((k.take n).map (· ^^^ pad) ++ dst.drop n) := by
  induction n with
  | zero => rfl
  | succ n ih =>
    have hlen : ((k.take n).map (· ^^^ pad)).length = n := by
      rw [List.length_map, List.length_take]
      omega
    have hget : k[n]? = some k[n] := List.getElem?_eq_getElem hk
    rw [List.range_succ, List.foldlM_append, ih (by omega) (by omega)]
    simp only [Option.bind_eq_bind, Option.bind_some, List.foldlM_cons, List.foldlM_nil, hget]
    rw [List.drop_eq_getElem_cons (by omega), ← List.singleton_append,
      writeAt_middle hlen.symm (by rfl), List.take_succ_eq_append_getElem hk, List.map_append,
      List.append_assoc]
    rfl

/-- The loop writes the combined block over the first 64 bytes. -/
theorem xorPad_eq {k : Bytes} (hk : k.length = 64) (pad : UInt8) (rest : Bytes) :
    xorPad k pad (List.replicate 64 0 ++ rest) = some (k.map (· ^^^ pad) ++ rest) := by
  have hdst : 64 ≤ (List.replicate 64 (0 : UInt8) ++ rest).length := by simp
  rw [xorPad, xorPad_prefix pad hk.ge hdst, List.take_of_length_le hk.le,
    List.drop_left' (List.length_replicate ..)]

theorem newInnerSlice_eq (n : ℕ) :
    newInnerSlice n = some (List.replicate 64 0 ++ List.replicate n 0) := by
  rw [newInnerSlice, ← List.replicate_add]
  split
  · rename_i hle
    rw [readAt, if_pos (by omega), slice, List.drop_zero, List.take_replicate]
    rw [List.length_replicate] at hle
    rw [Nat.min_eq_left hle]
  · rfl

theorem xorBytes_replicate {b : Bytes} {n : ℕ} (h : b.length = n) (pad : UInt8) :
    xorBytes b (List.replicate n pad) = b.map (· ^^^ pad) := by
  subst h
  induction b with
  | nil => rfl
  | cons x b ih =>
    rw [List.length_cons, List.replicate_succ, List.map_cons, ← ih]
    rfl

variable {sha256 : Bytes → Bytes}

theorem length_hmacKey (hsha : ∀ m, (sha256 m).length = 32) (key : Bytes) :
    (hmacKey sha256 key).length = 64 := by
  unfold hmacKey
  rw [List.length_append, List.length_replicate]
  split
  · rw [hsha]
  · omega

theorem keyBlock_eq (hsha : ∀ m, (sha256 m).length = 32) (key : Bytes) :
    keyBlock sha256 key = some (hmacKey sha256 key) := by
  unfold keyBlock hmacKey
  split
  · rw [copyAt_replicate (hsha key) (by decide)]
  · rw [copyAt_replicate rfl (by omega)]

/-! ## The result -/

theorem zeroPad_eq_append {n : ℕ} {m : Bytes} (h : m.length ≤ n) :
    zeroPad n m = m ++ List.replicate (n - m.length) 0 := by
  rw [zeroPad, List.take_append, List.take_of_length_le h, List.take_replicate,
    Nat.min_eq_left (Nat.sub_le ..)]

variable {P : Primitives}

theorem fastHmacSHA256Stack_eq (hsha : ∀ m, (P.sha256 m).length = 32) (key data : Bytes) :
    fastHmacSHA256Stack P key data = P.hmacSHA256 key data := by
  have hk : (if key.length > 64 then zeroPad 64 (P.sha256 key) else zeroPad 64 key) =
      hmacKey P.sha256 key := by
    unfold hmacKey
    split
    · exact zeroPad_eq_append (by rw [hsha]; decide)
    · exact zeroPad_eq_append (by omega)
  rw [fastHmacSHA256Stack, hk]
  rfl

theorem fastHmacSHA256StackChecked_eq (hsha : ∀ m, (P.sha256 m).length = 32) (key data : Bytes) :
    fastHmacSHA256StackChecked P.sha256 key data = some (P.hmacSHA256 key data) := by
  have hk := length_hmacKey hsha key
  have hpad : ∀ pad : UInt8, ((hmacKey P.sha256 key).map (· ^^^ pad)).length = 64 := by
    intro pad
    rw [List.length_map, hk]
  unfold fastHmacSHA256StackChecked
  simp only [keyBlock_eq hsha, newInnerSlice_eq, Option.bind_eq_bind, Option.bind_some,
    xorPad_eq hk]
  rw [copyAt_end (hpad _).symm rfl (by rw [List.length_replicate]), Option.bind_some,
    List.replicate_add, xorPad_eq hk, Option.bind_some,
    copyAt_end (hpad _).symm rfl (by rw [List.length_replicate, hsha])]
  rfl

theorem hmacSHA256_eq_rfc2104 (hsha : ∀ m, (P.sha256 m).length = 32) (key data : Bytes) :
    P.hmacSHA256 key data = rfc2104 P.sha256 64 key data := by
  have hk := length_hmacKey hsha key
  unfold hmacKey at hk
  simp only [Primitives.hmacSHA256, rfc2104, hmacKey, gt_iff_lt, xorBytes_replicate hk]

/-- **The hand-written HMAC is HMAC**, for every key and all data: no access to a buffer is out of
range, and the result is that of the definition and of the library function. -/
theorem fastHmacSHA256Stack_eq_hmac (P : Primitives) (hsha : ∀ m, (P.sha256 m).length = 32)
    (key data : Bytes) :
    fastHmacSHA256StackChecked P.sha256 key data = some (rfc2104 P.sha256 64 key data) ∧
      fastHmacSHA256Stack P key data = rfc2104 P.sha256 64 key data ∧
      P.hmacSHA256 key data = rfc2104 P.sha256 64 key data := by
  have hrfc := hmacSHA256_eq_rfc2104 hsha key data
  refine ⟨?_, ?_, hrfc⟩
  · rw [fastHmacSHA256StackChecked_eq hsha, hrfc]
  · rw [fastHmacSHA256Stack_eq hsha, hrfc]

/-- A key of 65 bytes, which is hashed, and data that do not fit the buffer on the stack. -/
theorem fastHmacSHA256Stack_long :
    fastHmacSHA256StackChecked sampleHash (List.replicate 65 1) (List.replicate 129 2) =
      some (Primitives.sample.hmacSHA256 (List.replicate 65 1) (List.replicate 129 2)) := by
  obtain ⟨hchecked, -, hhmac⟩ := fastHmacSHA256Stack_eq_hmac .sample sample_lawful.length_sha256
    (List.replicate 65 1) (List.replicate 129 2)
  rw [hhmac]
  exact hchecked

end ObsidianVPN.Protocol
