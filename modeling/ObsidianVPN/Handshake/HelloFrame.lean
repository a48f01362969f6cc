import ObsidianVPN.Crypto.Primitives
import ObsidianVPN.Lib.WindowScan

/-!
# Hello frames

A handshake message travels in a frame `nonce(16) || tag(8) || masked_len(4) || payload`, where the
tag and the mask of the length are an HMAC of the nonce under the server's public key. The reader
scans for a window with a matching tag, so that other bytes may come first.

* `buildHelloFrame`, `readHelloFrame`: the two functions of the source;
* `Unambiguous`: no window before the frame carries a tag by accident;
* **`readHelloFrame_reached`**: a frame within the limit is found and its payload returned;
* **`readHelloFrame_missed`**: a frame beyond it is not;
* `tagged_of_readHelloFrame`: nothing is returned without a tag in the stream.
-/

namespace ObsidianVPN.Handshake

open ByteStr GoString WindowScan

def helloNonceSize : ℕ := 16
def helloTagSize : ℕ := 8
def helloLenSize : ℕ := 4
def helloFrameOverhead : ℕ := helloNonceSize + helloTagSize + helloLenSize

def helloFrameLabel : Bytes := ascii "obsidian_hello_frame_v3"

section Frames

variable (P : Primitives) (serverPub : Bytes)

def helloMac (nonce : Bytes) : Bytes := P.hmacSHA256 serverPub (nonce ++ helloFrameLabel)

/-- The four bytes of the HMAC that mask the length. -/
def helloMask (nonce : Bytes) : ℕ :=
  getBE (slice (helloMac P serverPub nonce) helloTagSize helloLenSize)

/-- `BuildHelloFrame`, with the random nonce as an argument. -/
def buildHelloFrame (payload nonce : Bytes) : Except String Bytes :=
  if payload.length > 8192 then .error s!"hello payload too large: {payload.length}"
  else
    .ok (nonce ++ ((helloMac P serverPub nonce).take helloTagSize ++
      (putBE helloLenSize (payload.length ^^^ helloMask P serverPub nonce) ++ payload)))

/-- The window carries the tag of its nonce. -/
def Tagged (buf : Bytes) : Prop :=
  slice buf helloNonceSize helloTagSize =
    (helloMac P serverPub (buf.take helloNonceSize)).take helloTagSize

instance : DecidablePred (Tagged P serverPub) := fun buf => by unfold Tagged; infer_instance

/-- `ReadHelloFrame`: the payload or the error, and what is left to read. -/
def readHelloFrame (maxScan maxPayload : ℤ) (r : Bytes) : Except String Bytes × Bytes :=
  let maxScan := if maxScan ≤ 0 then 4096 else maxScan.toNat
  let maxPayload := if maxPayload ≤ 0 then 8192 else maxPayload.toNat
  match readFull helloFrameOverhead r with
  | (.error err, rest) => (.error err, rest)
  | (.ok buf, rest) =>
    match scan (Tagged P serverPub) maxScan buf helloFrameOverhead rest with
    | .ended => (.error "EOF", [])
    | .exhausted scanned rest => (.error s!"hello frame not found after {scanned} bytes", rest)
    | .found buf rest =>
      let maskedLen := getBE (slice buf (helloNonceSize + helloTagSize) helloLenSize)
      let payloadLen := maskedLen ^^^ helloMask P serverPub (buf.take helloNonceSize)
      if payloadLen > maxPayload then (.error s!"hello payload too large: {payloadLen}", rest)
      else
        match readFull payloadLen rest with
        | (.error err, rest) => (.error ("read hello payload: " ++ err), rest)
        | (.ok payload, rest) => (.ok payload, rest)

/-- No window that starts in the bytes before the frame carries a tag. -/
def Unambiguous (before frame : Bytes) : Prop :=
  ∀ i < before.length, ¬ Tagged P serverPub (windowAt (before ++ frame) helloFrameOverhead i)

end Frames

section Reading

variable {P : Primitives} {serverPub : Bytes}

/-- The first 28 bytes of a frame for a payload of `n` bytes. -/
def helloHead (P : Primitives) (serverPub nonce : Bytes) (n : ℕ) : Bytes :=
  nonce ++ ((helloMac P serverPub nonce).take helloTagSize ++
    putBE helloLenSize (n ^^^ helloMask P serverPub nonce))

theorem buildHelloFrame_ok {payload nonce frame : Bytes} :
    buildHelloFrame P serverPub payload nonce = .ok frame ↔
      payload.length ≤ 8192 ∧ frame = helloHead P serverPub nonce payload.length ++ payload := by
  unfold buildHelloFrame helloHead
  split
  · rename_i h
    simp only [reduceCtorEq, false_iff]
    intro h'
    omega
  · rename_i h
    simp only [Except.ok.injEq, List.append_assoc]
    exact ⟨fun e => ⟨by omega, e.symm⟩, fun e => e.2.symm⟩

variable (serverPub) in
/-- **The head of a frame**: its length, its nonce, its tag and the masked length. -/
theorem helloHead_spec (hP : P.Lawful) {nonce : Bytes} (hn : nonce.length = helloNonceSize) {n : ℕ}
    (hlt : n < 2 ^ 32) :
    (helloHead P serverPub nonce n).length = helloFrameOverhead ∧
      (helloHead P serverPub nonce n).take helloNonceSize = nonce ∧
      Tagged P serverPub (helloHead P serverPub nonce n) ∧
      getBE (slice (helloHead P serverPub nonce n) (helloNonceSize + helloTagSize) helloLenSize) ^^^
        helloMask P serverPub nonce = n := by
  set tag := (helloMac P serverPub nonce).take helloTagSize with htag
  have hmac : (helloMac P serverPub nonce).length = 32 := length_hmacSHA256 hP _ _
  have htlen : tag.length = helloTagSize := by
    rw [htag, List.length_take, hmac]
    decide
  have hmask : helloMask P serverPub nonce < 2 ^ 32 := by
    have hlt := getBE_lt (slice (helloMac P serverPub nonce) helloTagSize helloLenSize)
    rwa [length_slice (by rw [hmac]; decide)] at hlt
  have htake : (helloHead P serverPub nonce n).take helloNonceSize = nonce := List.take_left' hn
  refine ⟨?_, htake, ?_, ?_⟩
  · rw [helloHead, List.length_append, List.length_append, length_putBE, hn, htlen]
    rfl
  · rw [Tagged, htake]
    exact slice_middle _ _ _ hn.symm htlen.symm
  · have hlen : slice (helloHead P serverPub nonce n) (helloNonceSize + helloTagSize) helloLenSize =
        putBE helloLenSize (n ^^^ helloMask P serverPub nonce) := by
      rw [helloHead, ← List.append_assoc,
        slice_append_right _ _ _ _ (by rw [List.length_append, hn, htlen])]
      exact List.take_of_length_le (by simp)
    rw [hlen, getBE_putBE_of_lt (Nat.xor_lt_two_pow hlt hmask), xor_xor_cancel_right]

variable {payload nonce frame before : Bytes}

/-- The windows before the frame stay without a tag when more bytes follow it. -/
theorem Unambiguous.not_tagged (h : Unambiguous P serverPub before frame)
    (hframe : helloFrameOverhead ≤ frame.length) (rest : Bytes) {i : ℕ} (hi : i < before.length) :
    ¬ Tagged P serverPub (windowAt (before ++ frame ++ rest) helloFrameOverhead i) := by
  rw [windowAt_append (by rw [List.length_append]; omega)]
  exact h i hi

/-- A byte that starts every tag and is not among the bytes before makes a frame unambiguous. -/
theorem unambiguous_of_notMem {x : UInt8}
    (hmac : ∀ n, (helloMac P serverPub n).head? = some x) (hbefore : x ∉ before)
    (hnonce : x ∉ frame.take helloNonceSize) : Unambiguous P serverPub before frame := by
  intro i hi htag
  have hhead : (before ++ frame)[i + helloNonceSize]? = some x := by
    have h := congrArg List.head? htag
    rw [slice, List.head?_take, List.head?_take, hmac, windowAt, List.drop_take, List.head?_take,
      List.head?_drop] at h
    simpa [helloTagSize, helloFrameOverhead, helloNonceSize, helloLenSize] using h
  rcases lt_or_ge (i + helloNonceSize) before.length with hlt | hge
  · rw [List.getElem?_append_left hlt] at hhead
    exact hbefore (List.mem_of_getElem? hhead)
  · rw [List.getElem?_append_right hge] at hhead
    refine hnonce (List.mem_of_getElem? (i := i + helloNonceSize - before.length) ?_)
    rw [List.getElem?_take_of_lt (by omega)]
    exact hhead

/-- The reader's first step: the first window is read. -/
theorem readFull_window {stream : Bytes} (h : helloFrameOverhead ≤ stream.length) :
    readFull helloFrameOverhead stream =
      (.ok (windowAt stream helloFrameOverhead 0), stream.drop helloFrameOverhead) := by
  rw [readFull_of_le h, windowAt, List.drop_zero]

/-- **A frame within the limit is reached** and its payload returned. -/
theorem readHelloFrame_reached (hP : P.Lawful)
    (hframe : buildHelloFrame P serverPub payload nonce = .ok frame)
    (hn : nonce.length = helloNonceSize) (hclean : Unambiguous P serverPub before frame)
    {maxScan maxPayload : ℤ} (hpay : payload.length ≤ maxPayload)
    (hscan : before.length + helloFrameOverhead ≤ maxScan) (rest : Bytes) :
    readHelloFrame P serverPub maxScan maxPayload (before ++ frame ++ rest) =
      (.ok payload, rest) := by
  obtain ⟨h8192, rfl⟩ := buildHelloFrame_ok.mp hframe
  obtain ⟨hlen, htake, htagged, hcount⟩ :=
    helloHead_spec serverPub hP hn (by omega : payload.length < 2 ^ 32)
  set head := helloHead P serverPub nonce payload.length with hhead
  set stream := before ++ (head ++ payload) ++ rest with hstream
  have hover : helloFrameOverhead = 28 := rfl
  have hslen : stream.length = before.length + 28 + payload.length + rest.length := by
    simp only [hstream, List.length_append, hlen, hover]
    omega
  have hat : windowAt stream helloFrameOverhead before.length = head := by
    rw [hstream, List.append_assoc, List.append_assoc]
    exact slice_middle _ _ _ rfl hlen.symm
  have hafter : stream.drop (before.length + helloFrameOverhead) = payload ++ rest := by
    rw [hstream, List.append_assoc, List.append_assoc, ← List.append_assoc before head]
    exact List.drop_left' (by rw [List.length_append, hlen])
  have hno : ∀ i < before.length, ¬ Tagged P serverPub (windowAt stream helloFrameOverhead i) :=
    fun i hi => hclean.not_tagged (by rw [List.length_append, hlen]; omega) rest hi
  rw [← hat] at htagged
  have hlimit : before.length + helloFrameOverhead ≤ maxScan.toNat := by omega
  have hfound := scan_found (by decide) hno htagged hlimit (by omega)
  rw [hat, hafter] at hfound
  rw [readHelloFrame, readFull_window (by omega), if_neg (by omega)]
  simp only [hfound, htake, hcount]
  rw [if_neg (by split <;> omega), readFull_append _ _ rfl]

/-- **A frame beyond the limit is not reached**: the reader gives up after `maxScan` bytes. -/
theorem readHelloFrame_missed (hP : P.Lawful)
    (hframe : buildHelloFrame P serverPub payload nonce = .ok frame)
    (hn : nonce.length = helloNonceSize) (hclean : Unambiguous P serverPub before frame)
    {maxScan : ℤ} (hmin : helloFrameOverhead ≤ maxScan)
    (hscan : maxScan < before.length + helloFrameOverhead) (maxPayload : ℤ) (rest : Bytes) :
    readHelloFrame P serverPub maxScan maxPayload (before ++ frame ++ rest) =
      (.error s!"hello frame not found after {maxScan.toNat} bytes",
        (before ++ frame ++ rest).drop maxScan.toNat) := by
  obtain ⟨h8192, rfl⟩ := buildHelloFrame_ok.mp hframe
  have hlen := (helloHead_spec serverPub hP hn (by omega : payload.length < 2 ^ 32)).1
  set head := helloHead P serverPub nonce payload.length with hhead
  set stream := before ++ (head ++ payload) ++ rest with hstream
  have hover : helloFrameOverhead = 28 := rfl
  have hslen : stream.length = before.length + 28 + payload.length + rest.length := by
    simp only [hstream, List.length_append, hlen, hover]
    omega
  have hno : ∀ i, i + helloFrameOverhead ≤ maxScan.toNat →
      ¬ Tagged P serverPub (windowAt stream helloFrameOverhead i) :=
    fun i hi => hclean.not_tagged (by rw [List.length_append, hlen]; omega) rest (by omega)
  have hend := scan_exhausted (by decide) (by omega) hno (by omega)
  rw [readHelloFrame, readFull_window (by omega), if_neg (by omega)]
  simp only [hend]

/-- A reader that returns a payload has found a tag. -/
theorem tagged_of_readHelloFrame {maxScan maxPayload : ℤ} {stream : Bytes}
    (h : (readHelloFrame P serverPub maxScan maxPayload stream).1 = .ok payload) :
    ∃ i, i + helloFrameOverhead ≤ stream.length ∧
      Tagged P serverPub (windowAt stream helloFrameOverhead i) := by
  by_cases hlen : helloFrameOverhead ≤ stream.length
  · have hwindow : (windowAt stream helloFrameOverhead 0).length = helloFrameOverhead := by
      rw [windowAt, List.drop_zero, List.length_take, Nat.min_eq_left hlen]
    have hstream : windowAt stream helloFrameOverhead 0 ++ stream.drop helloFrameOverhead =
        stream := by
      rw [windowAt, List.drop_zero, List.take_append_drop]
    simp only [readHelloFrame, readFull_window hlen] at h
    split at h
    · cases h
    · cases h
    · rename_i buf rest hscan
      have hne : windowAt stream helloFrameOverhead 0 ≠ [] := by
        intro hnil
        rw [hnil] at hwindow
        cases hwindow
      obtain ⟨i, hi, rfl, hhit⟩ := hit_of_scan_found hne hscan
      rw [hwindow, hstream] at hi hhit
      exact ⟨i, hi, hhit⟩
  · rw [readHelloFrame, readFull, if_neg hlen] at h
    cases h

end Reading

end ObsidianVPN.Handshake
