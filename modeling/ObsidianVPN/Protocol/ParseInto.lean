import ObsidianVPN.Protocol.RoundTrip

/-!
# Parsing into a buffer

`ParseFrameInto` and `ParseFrameWithBuffer` decode a packet into memory of the caller. They repeat
the checks of `ParseFrame` by hand, with a path of their own for a buffer that is too small.

* `StreamFramer.parseFrameWithBuffer`: the third decoder;
* `Agrees`: the decoders do the same, or say that the buffer is too small;
* **`agrees_iff`**: they agree exactly when the payload fits into the buffer. A payload that does not
  fit is cut off without an error, or makes the slice of the buffer panic.
-/

namespace ObsidianVPN.Protocol

open ByteStr

def slicePanic : String := "panic: slice bounds out of range"

section Parse

variable (P : Primitives)

/-- `ParseFrameWithBuffer` on a buffer with `spare` behind it, up to its capacity. -/
def StreamFramer.parseFrameWithBuffer (f : StreamFramer) (dst spare raw : Bytes) :
    Except String Packet × StreamFramer :=
  match f.parseFrameInto P dst raw with
  | (.error err, f) => (.error err, f)
  | (.ok (ptype, payLen, buf), f) =>
    if dst.length + spare.length < payLen then (.error slicePanic, f)
    else (.ok ⟨ptype, (buf ++ spare).take payLen⟩, f)

/-- The result of `ParseFrame` is in the buffer, or the buffer is too small and the call says so. -/
def IntoAgrees (dst : Bytes) :
    Except String Packet → Except String (PacketType × ℕ × Bytes) → Prop
  | .error err, .error err' => err' = err
  | .error _, .ok _ => False
  | .ok p, .ok (ptype, payLen, buf) =>
    ptype = p.type ∧ payLen = p.payload.length ∧ payLen ≤ dst.length ∧ buf.take payLen = p.payload
  | .ok p, .error err => dst.length < p.payload.length ∧ err ≠ slicePanic

/-- The same for the packet that `ParseFrameWithBuffer` returns. -/
def BufferAgrees (dst : Bytes) : Except String Packet → Except String Packet → Prop
  | .error err, .error err' => err' = err
  | .error _, .ok _ => False
  | .ok p, .ok p' => p' = p ∧ p.payload.length ≤ dst.length
  | .ok p, .error err => dst.length < p.payload.length ∧ err ≠ slicePanic

/-- The three decoders do the same with a packet. -/
structure Agrees (f : StreamFramer) (dst spare raw : Bytes) : Prop where
  /-- They use up the same nonces. -/
  framer : (f.parseFrameInto P dst raw).2 = (f.parseFrame P raw).2 ∧
    (f.parseFrameWithBuffer P dst spare raw).2 = (f.parseFrame P raw).2
  into : IntoAgrees dst (f.parseFrame P raw).1 (f.parseFrameInto P dst raw).1
  withBuffer : BufferAgrees dst (f.parseFrame P raw).1 (f.parseFrameWithBuffer P dst spare raw).1
  /-- The slice `plaintext[:payLen]` of each of them is in range. -/
  inRange : ∀ head plaintext, readHeader P f.decHeaderKey f.headerCfg raw = .ok head →
    (f.decCipher.decrypt P.suite head.ct head.aad).1 = some plaintext →
    head.payLen ≤ plaintext.length

end Parse

variable {P : Primitives}

/-- `Open` takes the tag off. -/
def OpenTakesTag (P : Primitives) : Prop :=
  ∀ k n c a p, P.aeadOpen k n c a = some p → p.length + tagSize = c.length

theorem readHeader_length {headerKey : Option Bytes} {hc : HeaderConfig} {data : Bytes}
    {head : PacketHead} (h : readHeader P headerKey hc data = .ok head) :
    head.ct.length = head.payLen + head.padLen + tagSize := by
  unfold readHeader at h
  split at h
  · exact absurd h (by simp)
  · cases hmask : xorPacketHeader P (data.take packetHeaderSize) headerKey
        (data.drop packetHeaderSize) with
    | error err => exact absurd h (by simp [hmask])
    | ok aad =>
      simp only [hmask] at h
      split at h
      · exact absurd h (by simp)
      · split at h
        · exact absurd h (by simp)
        · split at h
          · exact absurd h (by simp)
          · rename_i hlen
            rw [Except.ok.injEq] at h
            subst h
            exact not_not.1 hlen

theorem length_plaintext (hP : OpenTakesTag P) {f : StreamFramer} {raw plaintext : Bytes}
    {head : PacketHead} (hread : readHeader P f.decHeaderKey f.headerCfg raw = .ok head)
    (hopen : (f.decCipher.decrypt P.suite head.ct head.aad).1 = some plaintext) :
    plaintext.length = head.payLen + head.padLen := by
  have htag := hP _ _ _ _ _ hopen
  rw [readHeader_length hread] at htag
  omega

/-- What `ParseFrameInto` leaves in the buffer. -/
def intoBuffer (dst plaintext : Bytes) (payLen padLen : ℕ) : Bytes :=
  let written := if dst.length < payLen + padLen then (plaintext.take payLen).take dst.length
    else plaintext
  written ++ dst.drop written.length

/-- A buffer with room for the payload has the payload at its start, on both paths. -/
theorem take_intoBuffer {dst plaintext : Bytes} {payLen padLen : ℕ}
    (hlen : plaintext.length = payLen + padLen) (hfits : payLen ≤ dst.length) :
    (intoBuffer dst plaintext payLen padLen).take payLen = plaintext.take payLen ∧
      payLen ≤ (intoBuffer dst plaintext payLen padLen).length := by
  simp only [intoBuffer]
  split
  · have hpay : (plaintext.take payLen).length = payLen := by rw [List.length_take]; omega
    rw [List.take_of_length_le (by omega : (plaintext.take payLen).length ≤ dst.length)]
    exact ⟨by rw [List.take_append_of_le_length (by omega), List.take_take, Nat.min_self],
      by rw [List.length_append]; omega⟩
  · exact ⟨List.take_append_of_le_length (by omega), by rw [List.length_append]; omega⟩

/-- **What the first two decoders do**: they fail alike, or decrypt the same plaintext. -/
theorem parse_cases (f : StreamFramer) (dst raw : Bytes) :
    (∃ err f', f.parseFrame P raw = (.error err, f') ∧
      f.parseFrameInto P dst raw = (.error err, f')) ∨
    ∃ head plaintext f', readHeader P f.decHeaderKey f.headerCfg raw = .ok head ∧
      (f.decCipher.decrypt P.suite head.ct head.aad).1 = some plaintext ∧
      f.parseFrame P raw = (.ok ⟨head.type, plaintext.take head.payLen⟩, f') ∧
      f.parseFrameInto P dst raw =
        (.ok (head.type, head.payLen, intoBuffer dst plaintext head.payLen head.padLen), f') := by
  unfold StreamFramer.parseFrame StreamFramer.parseFrameInto decodePacketWithHeaderProtection
  cases hread : readHeader P f.decHeaderKey f.headerCfg raw with
  | error err => exact .inl ⟨err, f, rfl, rfl⟩
  | ok head =>
    cases hopen : (f.decCipher.decrypt P.suite head.ct head.aad).1 with
    | none =>
      simp only [hopen]
      exact .inl ⟨_, _, rfl, rfl⟩
    | some plaintext =>
      refine .inr ⟨head, plaintext, { f with decCipher := f.decCipher.next }, rfl, hopen, ?_⟩
      simp only [hopen]
      exact ⟨rfl, rfl⟩

theorem inRange_of_openTakesTag (hP : OpenTakesTag P) {f : StreamFramer} {raw plaintext : Bytes}
    {head : PacketHead} (hread : readHeader P f.decHeaderKey f.headerCfg raw = .ok head)
    (hopen : (f.decCipher.decrypt P.suite head.ct head.aad).1 = some plaintext) :
    head.payLen ≤ plaintext.length := by
  rw [length_plaintext hP hread hopen]
  exact Nat.le_add_right _ _

/-- **The decoders agree exactly on the packets whose payload fits into the buffer.** -/
theorem agrees_iff (hP : OpenTakesTag P) (f : StreamFramer) (dst spare raw : Bytes) :
    Agrees P f dst spare raw ↔
      ∀ p, (f.parseFrame P raw).1 = .ok p → p.payload.length ≤ dst.length := by
  obtain ⟨err, f', hparse, hinto⟩ | ⟨head, plaintext, f', hread, hopen, hparse, hinto⟩ :=
    parse_cases (P := P) f dst raw
  · have hbuffer : f.parseFrameWithBuffer P dst spare raw = (.error err, f') := by
      simp only [StreamFramer.parseFrameWithBuffer, hinto]
    refine iff_of_true ⟨?_, ?_, ?_, fun _ _ => inRange_of_openTakesTag hP⟩ ?_
    · rw [hparse, hinto, hbuffer]
      exact ⟨rfl, rfl⟩
    · rw [hparse, hinto]
      exact rfl
    · rw [hparse, hbuffer]
      exact rfl
    · rw [hparse]
      exact fun p hp => absurd hp (by simp)
  have hlen := length_plaintext hP hread hopen
  have hpay : (plaintext.take head.payLen).length = head.payLen := by
    rw [List.length_take, hlen]
    omega
  rw [hparse]
  constructor
  · -- the buffered decoder has reported success, so the payload has to fit
    rintro ⟨-, hagree, -, -⟩ p hp
    rw [hparse, hinto] at hagree
    obtain ⟨-, -, hfits, -⟩ := hagree
    rw [Except.ok.injEq] at hp
    subst hp
    exact hpay.trans_le hfits
  · intro h
    have hfits : head.payLen ≤ dst.length := hpay.symm.trans_le (h _ rfl)
    obtain ⟨htake, hroom⟩ := take_intoBuffer hlen hfits
    have hbuffer : f.parseFrameWithBuffer P dst spare raw =
        (.ok ⟨head.type, plaintext.take head.payLen⟩, f') := by
      simp only [StreamFramer.parseFrameWithBuffer, hinto]
      rw [if_neg (by omega), List.take_append_of_le_length hroom, htake]
    refine ⟨?_, ?_, ?_, fun _ _ => inRange_of_openTakesTag hP⟩
    · rw [hparse, hinto, hbuffer]
      exact ⟨rfl, rfl⟩
    · rw [hparse, hinto]
      exact ⟨rfl, hpay.symm, hfits, htake⟩
    · rw [hparse, hbuffer]
      exact ⟨rfl, hpay.trans_le hfits⟩

/-! ## A packet and two buffers -/

/-- The first packet of the sample stream. -/
def samplePacketBytes : Bytes :=
  match (sampleSender.frame .sample .data [1, 2, 3] ⟨0, 0, 5, fun _ => 9⟩).1 with
  | .ok frame => frame.drop 4
  | .error _ => []

theorem sample_openTakesTag : OpenTakesTag .sample := by
  intro k n c a p h
  simp only [Primitives.sample, Option.ite_none_right_eq_some, Option.some.injEq] at h
  obtain ⟨hc, rfl⟩ := h
  have hlen := congrArg List.length hc
  rw [List.length_append, sampleTag, length_zeroPad] at hlen
  exact hlen.symm

theorem agrees_large_buffer :
    (sampleReceiver.parseFrame .sample samplePacketBytes).1 = .ok ⟨.data, [1, 2, 3]⟩ ∧
    Agrees .sample sampleReceiver [0, 0, 0, 0] [] samplePacketBytes := by
  have hparse : (sampleReceiver.parseFrame .sample samplePacketBytes).1 = .ok ⟨.data, [1, 2, 3]⟩ := by
    decide +kernel
  refine ⟨hparse, (agrees_iff sample_openTakesTag _ _ _ _).2 fun p hp => ?_⟩
  rw [hparse, Except.ok.injEq] at hp
  subst hp
  decide

/-- A payload of three bytes and a buffer of two: the length that is reported is larger than the
buffer, and slicing the buffer panics. -/
theorem small_buffer :
    (sampleReceiver.parseFrame .sample samplePacketBytes).1 = .ok ⟨.data, [1, 2, 3]⟩ ∧
    (sampleReceiver.parseFrameInto .sample [0, 0] samplePacketBytes).1 = .ok (.data, 3, [1, 2]) ∧
    (sampleReceiver.parseFrameWithBuffer .sample [0, 0] [] samplePacketBytes).1 =
      .error slicePanic ∧
    (sampleReceiver.parseFrameWithBuffer .sample [0, 0] [9] samplePacketBytes).1 =
      .ok ⟨.data, [1, 2, 9]⟩ := by
  refine ⟨?_, ?_, ?_, ?_⟩ <;> decide +kernel

end ObsidianVPN.Protocol
