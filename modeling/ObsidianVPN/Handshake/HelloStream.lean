import ObsidianVPN.Handshake.HelloFrame
import ObsidianVPN.Lib.Feed

/-!
# Reading a hello frame from a connection

`ReadHelloFrame` reads from any `io.Reader`, through `io.ReadFull`. The reader may cut the stream as
it likes and may fail in between.

* `readHelloFrameFrom`: the function over any reader with a `ReadFull`;
  `readHelloFrameFrom_readFull`: over a byte string it is `readHelloFrame`;
* `ReadsAlike`, **`readHelloFrameFrom_alike`**: two readers whose `ReadFull`s do alike lead to the same
  result;
* `readFullFeed`: `ReadFull` on a connection; `readFullFeed_ok`, `readFullFeed_error`;
* **`readHelloFrame_exact`**: the framed payload is found exactly within the limit, however the stream
  is cut, and no more than the two limits allow is read.
-/

namespace ObsidianVPN.Handshake

open ByteStr GoString WindowScan

/-! ## Any reader -/

/-- `io.ReadFull` on a reader with states `σ`. -/
abbrev FullReader (σ : Type) := ℕ → σ → Except String Bytes × σ

/-- How the scan of a reader ends. -/
inductive ScanEnd (σ : Type) where
  | found (window : Bytes) (rest : σ)
  | exhausted (scanned : ℕ) (rest : σ)
  | failed (err : String) (rest : σ)

section Readers

variable {σ τ : Type} (P : Primitives) (serverPub : Bytes)

/-- The loop of `ReadHelloFrame`. -/
def scanFrom (rd : FullReader σ) (limit : ℕ) (buf : Bytes) (scanned : ℕ) (r : σ) : ScanEnd σ :=
  if Tagged P serverPub buf then .found buf r
  else if limit ≤ scanned then .exhausted scanned r
  else
    match rd 1 r with
    | (.error err, rest) => .failed err rest
    | (.ok last, rest) => scanFrom rd limit (buf.tail ++ last) (scanned + 1) rest
termination_by limit - scanned

/-- The limits that `ReadHelloFrame` uses when it is given none. -/
def scanLimit (maxScan : ℤ) : ℕ := if maxScan ≤ 0 then 4096 else maxScan.toNat

def payloadLimit (maxPayload : ℤ) : ℕ := if maxPayload ≤ 0 then 8192 else maxPayload.toNat

/-- `ReadHelloFrame`: the payload or the error, and the reader afterwards. -/
def readHelloFrameFrom (rd : FullReader σ) (maxScan maxPayload : ℤ) (r : σ) :
    Except String Bytes × σ :=
  match rd helloFrameOverhead r with
  | (.error err, rest) => (.error err, rest)
  | (.ok buf, rest) =>
    match scanFrom P serverPub rd (scanLimit maxScan) buf helloFrameOverhead rest with
    | .failed err rest => (.error err, rest)
    | .exhausted scanned rest => (.error s!"hello frame not found after {scanned} bytes", rest)
    | .found buf rest =>
      let maskedLen := getBE (slice buf (helloNonceSize + helloTagSize) helloLenSize)
      let payloadLen := maskedLen ^^^ helloMask P serverPub (buf.take helloNonceSize)
      if payloadLen > payloadLimit maxPayload then
        (.error s!"hello payload too large: {payloadLen}", rest)
      else
        match rd payloadLen rest with
        | (.error err, rest) => (.error ("read hello payload: " ++ err), rest)
        | (.ok payload, rest) => (.ok payload, rest)

/-! ## Readers that do alike -/

/-- Two results of reading: the same bytes and related states, or two failures. -/
def ReadAlike (R F : σ → τ → Prop) (E : String → String → Prop) :
    Except String Bytes × σ → Except String Bytes × τ → Prop
  | (.ok b, r), (.ok b', r') => b = b' ∧ R r r'
  | (.error e, r), (.error e', r') => E e e' ∧ F r r'
  | _, _ => False

/-- The `ReadFull`s of related readers do alike. -/
def ReadsAlike (R F : σ → τ → Prop) (E : String → String → Prop) (rd : FullReader σ)
    (rd' : FullReader τ) : Prop :=
  ∀ n r r', R r r' → ReadAlike R F E (rd n r) (rd' n r')

/-- Two scans that ended alike. -/
def ScanAlike (R F : σ → τ → Prop) (E : String → String → Prop) : ScanEnd σ → ScanEnd τ → Prop
  | .found w r, .found w' r' => w = w' ∧ R r r'
  | .exhausted n r, .exhausted n' r' => n = n' ∧ R r r'
  | .failed e r, .failed e' r' => E e e' ∧ F r r'
  | _, _ => False

/-- Two results of `ReadHelloFrame`: the same, or the failures of two reads. -/
def FrameAlike (R F : σ → τ → Prop) (E : String → String → Prop)
    (x : Except String Bytes × σ) (y : Except String Bytes × τ) : Prop :=
  (x.1 = y.1 ∧ R x.2 y.2) ∨
  ∃ e e', E e e' ∧ F x.2 y.2 ∧ ∃ text : String, x.1 = .error (text ++ e) ∧ y.1 = .error (text ++ e')
    ∧ (text = "" ∨ text = "read hello payload: ")

variable {R F : σ → τ → Prop} {E : String → String → Prop} {rd : FullReader σ} {rd' : FullReader τ}

theorem scanFrom_alike (h : ReadsAlike R F E rd rd') (limit : ℕ) (buf : Bytes) (scanned : ℕ) (r : σ)
    (r' : τ) (hr : R r r') :
    ScanAlike R F E (scanFrom P serverPub rd limit buf scanned r)
      (scanFrom P serverPub rd' limit buf scanned r') := by
  induction hk : limit - scanned generalizing buf scanned r r' with
  | zero =>
    rw [scanFrom.eq_def, scanFrom.eq_def P serverPub rd']
    split
    · exact ⟨rfl, hr⟩
    · rw [if_pos (by omega), if_pos (by omega)]
      exact ⟨rfl, hr⟩
  | succ k ih =>
    rw [scanFrom.eq_def, scanFrom.eq_def P serverPub rd']
    split
    · exact ⟨rfl, hr⟩
    · rw [if_neg (by omega), if_neg (by omega)]
      -- one more byte, or the failure to read it
      have hstep := h 1 r r' hr
      revert hstep
      rcases rd 1 r with ⟨e | last, rest⟩ <;> rcases rd' 1 r' with ⟨e' | last', rest'⟩ <;>
        intro hstep
      · exact hstep
      · exact hstep.elim
      · exact hstep.elim
      · obtain ⟨rfl, hrest⟩ := hstep
        exact ih _ _ _ _ hrest (by omega)

/-- **Readers that do alike lead to the same frame**, or fail in the same read. -/
theorem readHelloFrameFrom_alike (h : ReadsAlike R F E rd rd') (maxScan maxPayload : ℤ) {r : σ}
    {r' : τ} (hr : R r r') :
    FrameAlike R F E (readHelloFrameFrom P serverPub rd maxScan maxPayload r)
      (readHelloFrameFrom P serverPub rd' maxScan maxPayload r') := by
  unfold readHelloFrameFrom
  have hfirst := h helloFrameOverhead r r' hr
  revert hfirst
  rcases rd helloFrameOverhead r with ⟨e | buf, rest⟩ <;>
    rcases rd' helloFrameOverhead r' with ⟨e' | buf', rest'⟩ <;> intro hfirst
  · exact .inr ⟨e, e', hfirst.1, hfirst.2, "", by simp, by simp, .inl rfl⟩
  · exact hfirst.elim
  · exact hfirst.elim
  obtain ⟨rfl, hrest⟩ := hfirst
  have hscan := scanFrom_alike P serverPub h (scanLimit maxScan) buf helloFrameOverhead rest rest'
    hrest
  simp only
  revert hscan
  rcases scanFrom P serverPub rd (scanLimit maxScan) buf helloFrameOverhead rest
      with ⟨w, s⟩ | ⟨n, s⟩ | ⟨e, s⟩ <;>
    rcases scanFrom P serverPub rd' (scanLimit maxScan) buf helloFrameOverhead rest'
      with ⟨w', s'⟩ | ⟨n', s'⟩ | ⟨e', s'⟩ <;> intro hscan
  case found.found =>
    obtain ⟨rfl, hs⟩ := hscan
    simp only
    split
    · exact .inl ⟨rfl, hs⟩
    · have hlast := h (getBE (slice w (helloNonceSize + helloTagSize) helloLenSize) ^^^
        helloMask P serverPub (w.take helloNonceSize)) s s' hs
      revert hlast
      rcases rd (getBE (slice w (helloNonceSize + helloTagSize) helloLenSize) ^^^
          helloMask P serverPub (w.take helloNonceSize)) s with ⟨e | payload, t⟩ <;>
        rcases rd' (getBE (slice w (helloNonceSize + helloTagSize) helloLenSize) ^^^
          helloMask P serverPub (w.take helloNonceSize)) s' with ⟨e' | payload', t'⟩ <;>
        intro hlast
      · exact .inr ⟨e, e', hlast.1, hlast.2, _, rfl, rfl, .inr rfl⟩
      · exact hlast.elim
      · exact hlast.elim
      · obtain ⟨rfl, ht⟩ := hlast
        exact .inl ⟨rfl, ht⟩
  case exhausted.exhausted =>
    obtain ⟨rfl, hs⟩ := hscan
    exact .inl ⟨rfl, hs⟩
  case failed.failed => exact .inr ⟨e, e', hscan.1, hscan.2, "", by simp, by simp, .inl rfl⟩
  all_goals exact hscan.elim

end Readers

/-! ## A byte string -/

section Bytes

variable (P : Primitives) (serverPub : Bytes)

theorem scanFrom_readFull (limit : ℕ) (buf : Bytes) (scanned : ℕ) (stream : Bytes) :
    scanFrom P serverPub readFull limit buf scanned stream =
      match scan (Tagged P serverPub) limit buf scanned stream with
      | .found window rest => .found window rest
      | .exhausted scanned rest => .exhausted scanned rest
      | .ended => .failed "EOF" [] := by
  induction stream generalizing buf scanned with
  | nil =>
    rw [scanFrom, scan]
    split
    · rfl
    · split <;> rfl
  | cons a stream ih =>
    rw [scanFrom, scan]
    split
    · rfl
    · split
      · rfl
      · rw [readFull_of_le (by simp)]
        exact ih _ _

/-- **Over a byte string the reader is `readHelloFrame`.** -/
theorem readHelloFrameFrom_readFull (maxScan maxPayload : ℤ) (stream : Bytes) :
    readHelloFrameFrom P serverPub readFull maxScan maxPayload stream =
      readHelloFrame P serverPub maxScan maxPayload stream := by
  unfold readHelloFrameFrom readHelloFrame
  cases readFull helloFrameOverhead stream with
  | mk first rest =>
    cases first with
    | error err => rfl
    | ok buf =>
      simp only [scanFrom_readFull, scanLimit, payloadLimit]
      cases scan (Tagged P serverPub) (if maxScan ≤ 0 then 4096 else maxScan.toNat) buf
          helloFrameOverhead rest with
      | found window rest =>
        refine if_congr Iff.rfl rfl ?_
        rcases readFull _ rest with ⟨err | payload, rest⟩ <;> rfl
      | exhausted scanned rest => rfl
      | ended => rfl

end Bytes

/-! ## A connection -/

/-- `io.ReadFull` on a connection. -/
def readFullFeed (n : ℕ) (feed : Feed UInt8) : Except String Bytes × Feed UInt8 :=
  let r := readAtLeast n n [] feed
  if r.ok then (.ok r.buf, r.rest)
  else if feed.later ≠ [] then (.error "read error", r.rest)
  else (.error (if r.buf = [] then "EOF" else "unexpected EOF"), r.rest)

section Feeds

theorem readFullFeed_ok {n : ℕ} {feed : Feed UInt8} (h : n ≤ feed.beforeFault.length) :
    ∃ rest, readFullFeed n feed = (.ok (feed.beforeFault.take n), rest) ∧
      rest.beforeFault = feed.beforeFault.drop n ∧ rest.later = feed.later := by
  have hexact := readAtLeast_exact n [] feed (Nat.zero_le n)
  rw [List.nil_append, if_pos h] at hexact
  obtain ⟨hok, hbuf, hrest, hlater⟩ := hexact
  exact ⟨_, by rw [readFullFeed, if_pos hok, hbuf], hrest, hlater⟩

theorem readFullFeed_error {n : ℕ} {feed : Feed UInt8} (h : feed.beforeFault.length < n) :
    ∃ rest, readFullFeed n feed =
        (.error (if feed.later ≠ [] then "read error"
          else if feed.beforeFault = [] then "EOF" else "unexpected EOF"), rest) ∧
      rest.beforeFault = feed.later.headD [] ∧ rest.later = feed.later.tail := by
  have hexact := readAtLeast_exact n [] feed (Nat.zero_le n)
  rw [List.nil_append, if_neg (by omega)] at hexact
  obtain ⟨hok, hbuf, hrest, hlater⟩ := hexact
  refine ⟨_, ?_, hrest, hlater⟩
  simp only [readFullFeed, hok, Bool.false_eq_true, if_false, hbuf]
  split <;> rfl

/-- The same bytes between the same failures. -/
def SameBytes (feed feed' : Feed UInt8) : Prop :=
  feed.beforeFault = feed'.beforeFault ∧ feed.later = feed'.later

/-- A connection is read alike however its bytes are cut. -/
theorem readFullFeed_sameBytes : ReadsAlike SameBytes SameBytes Eq readFullFeed readFullFeed := by
  rintro n feed feed' ⟨hbefore, hlater⟩
  rcases le_or_gt n feed.beforeFault.length with hle | hlt
  · obtain ⟨rest, hread, hrest, hlater₁⟩ := readFullFeed_ok hle
    obtain ⟨rest', hread', hrest', hlater₂⟩ := readFullFeed_ok (hbefore ▸ hle)
    rw [hread, hread']
    exact ⟨by rw [hbefore], by rw [hrest, hrest', hbefore], by rw [hlater₁, hlater₂, hlater]⟩
  · obtain ⟨rest, hread, hrest, hlater₁⟩ := readFullFeed_error hlt
    obtain ⟨rest', hread', hrest', hlater₂⟩ := readFullFeed_error (hbefore ▸ hlt)
    rw [hread, hread']
    exact ⟨by rw [hbefore, hlater], by rw [hrest, hrest', hlater], by rw [hlater₁, hlater₂, hlater]⟩

/-- Up to the first failure a connection is read like the bytes before it. -/
theorem readFullFeed_bytes (later : List Bytes) :
    ReadsAlike (fun feed stream => feed.beforeFault = stream ∧ feed.later = later) (fun _ _ => True)
      (fun _ err => err = "EOF" ∨ err = "unexpected EOF") readFullFeed readFull := by
  rintro n feed stream ⟨rfl, rfl⟩
  rcases le_or_gt n feed.beforeFault.length with hle | hlt
  · obtain ⟨rest, hread, hrest, hlater⟩ := readFullFeed_ok hle
    rw [hread, readFull_of_le hle]
    exact ⟨rfl, hrest, hlater⟩
  · obtain ⟨rest, hread, -, -⟩ := readFullFeed_error hlt
    have hbytes : readFull n feed.beforeFault =
        (.error (if feed.beforeFault = [] then "EOF" else "unexpected EOF"), []) :=
      if_neg (by omega)
    rw [hread, hbytes]
    exact ⟨by by_cases hnil : feed.beforeFault = [] <;> simp [hnil], trivial⟩

/-- No more than `n` bytes were read. -/
def Took (n : ℕ) (feed rest : Feed UInt8) : Prop :=
  ∃ used : Bytes, feed.content = used ++ rest.content ∧ used.length ≤ n

theorem Took.trans {m n : ℕ} {a b c : Feed UInt8} (h₁ : Took m a b) (h₂ : Took n b c) :
    Took (m + n) a c := by
  obtain ⟨x, hx, hm⟩ := h₁
  obtain ⟨y, hy, hn⟩ := h₂
  exact ⟨x ++ y, by rw [hx, hy, List.append_assoc], by rw [List.length_append]; omega⟩

theorem Took.mono {m n : ℕ} {a b : Feed UInt8} (h : Took m a b) (hmn : m ≤ n) : Took n a b := by
  obtain ⟨x, hx, hm⟩ := h
  exact ⟨x, hx, hm.trans hmn⟩

theorem took_readFullFeed (n : ℕ) (feed : Feed UInt8) : Took n feed (readFullFeed n feed).2 := by
  have hrest : (readFullFeed n feed).2 = (readAtLeast n n [] feed).rest := by
    unfold readFullFeed
    simp only
    split
    · rfl
    · split <;> rfl
  have hexact := readAtLeast_exact n [] feed (Nat.zero_le n)
  refine ⟨(readAtLeast n n [] feed).buf, ?_, ?_⟩
  · rw [hrest]
    exact (readAtLeast_content n n [] feed).symm
  · split at hexact
    · rw [hexact.2.1]
      exact List.length_take_le _ _
    · rename_i hshort
      rw [hexact.2.1]
      omega

def ScanEnd.rest {σ : Type} : ScanEnd σ → σ
  | .found _ rest => rest
  | .exhausted _ rest => rest
  | .failed _ rest => rest

theorem took_scanFrom (P : Primitives) (serverPub : Bytes) (limit : ℕ) (buf : Bytes) (scanned : ℕ)
    (feed : Feed UInt8) :
    Took (limit - scanned) feed
      (scanFrom P serverPub readFullFeed limit buf scanned feed).rest := by
  have hstay : ∀ n, Took n feed feed := fun n => ⟨[], rfl, Nat.zero_le n⟩
  induction hk : limit - scanned generalizing buf scanned feed with
  | zero =>
    rw [scanFrom]
    split
    · exact hstay 0
    · rw [if_pos (by omega)]
      exact hstay 0
  | succ k ih =>
    have hone := took_readFullFeed 1 feed
    rw [scanFrom]
    split
    · exact hstay _
    · rw [if_neg (by omega)]
      revert hone
      rcases readFullFeed 1 feed with ⟨err | last, rest⟩ <;> intro hone
      · exact hone.mono (by omega)
      · rw [Nat.add_comm]
        exact hone.trans (ih _ _ _ (fun n => ⟨[], rfl, Nat.zero_le n⟩) (by omega))

/-- **The reader stops**: it takes no more than its two limits allow from any connection. -/
theorem took_readHelloFrameFrom (P : Primitives) (serverPub : Bytes) (maxScan maxPayload : ℤ)
    (feed : Feed UInt8) :
    Took (max helloFrameOverhead (scanLimit maxScan) + payloadLimit maxPayload) feed
      (readHelloFrameFrom P serverPub readFullFeed maxScan maxPayload feed).2 := by
  have hfirst := took_readFullFeed helloFrameOverhead feed
  unfold readHelloFrameFrom
  revert hfirst
  rcases readFullFeed helloFrameOverhead feed with ⟨err | buf, rest⟩ <;> intro hfirst
  · exact hfirst.mono (by omega)
  have hscan := hfirst.trans (took_scanFrom P serverPub (scanLimit maxScan) buf helloFrameOverhead rest)
  simp only
  revert hscan
  rcases scanFrom P serverPub readFullFeed (scanLimit maxScan) buf helloFrameOverhead rest
    with ⟨w, s⟩ | ⟨n, s⟩ | ⟨e, s⟩ <;> intro hscan
  · simp only
    split
    · exact hscan.mono (by omega)
    · rename_i hsmall
      have hlast := hscan.trans (took_readFullFeed
        (getBE (slice w (helloNonceSize + helloTagSize) helloLenSize) ^^^
          helloMask P serverPub (w.take helloNonceSize)) s)
      revert hlast
      rcases readFullFeed _ s with ⟨err | payload, t⟩ <;> intro hlast
      · exact hlast.mono (by omega)
      · exact hlast.mono (by omega)
  · exact hscan.mono (by omega)
  · exact hscan.mono (by omega)

/-- The error of an unsuccessful scan is not the error of a read. -/
theorem notFound_ne {n : ℕ} {text err : String} (herr : err = "EOF" ∨ err = "unexpected EOF")
    (htext : text = "" ∨ text = "read hello payload: ") :
    s!"hello frame not found after {n} bytes" ≠ text ++ err := by
  intro h
  change "hello frame not found after " ++ toString n ++ " bytes" = text ++ err at h
  have hhead := congrArg (fun s : String => s.toList.head?) h
  rcases herr with rfl | rfl <;> rcases htext with rfl | rfl <;> simp at hhead

variable {P : Primitives} {serverPub : Bytes}

/-- **The framed payload is found exactly within the limit.** With no tag before the frame, the reader
returns the payload and leaves what follows, or gives up after `maxScan` bytes; how the connection
cuts its bytes does not matter, and no more than the limits allow is read from any connection. -/
theorem readHelloFrame_exact (hP : P.Lawful) {payload nonce frame before : Bytes}
    (hframe : buildHelloFrame P serverPub payload nonce = .ok frame)
    (hn : nonce.length = helloNonceSize) (hclean : Unambiguous P serverPub before frame)
    {maxScan maxPayload : ℤ} (hscan : helloFrameOverhead ≤ maxScan)
    (hpay : payload.length ≤ maxPayload) (rest : Bytes) :
    (∀ feed : Feed UInt8, feed.beforeFault = before ++ frame ++ rest →
      if before.length ≤ maxScan - helloFrameOverhead then
        (readHelloFrameFrom P serverPub readFullFeed maxScan maxPayload feed).1 = .ok payload ∧
        (readHelloFrameFrom P serverPub readFullFeed maxScan maxPayload feed).2.beforeFault = rest ∧
        (readHelloFrameFrom P serverPub readFullFeed maxScan maxPayload feed).2.later = feed.later
      else
        (∃ err, (readHelloFrameFrom P serverPub readFullFeed maxScan maxPayload feed).1 =
          .error err) ∧
        (readHelloFrameFrom P serverPub readFullFeed maxScan maxPayload feed).2.beforeFault =
          (before ++ frame ++ rest).drop maxScan.toNat ∧
        (readHelloFrameFrom P serverPub readFullFeed maxScan maxPayload feed).2.later =
          feed.later) ∧
    (∀ feed feed' : Feed UInt8, SameBytes feed feed' →
      (readHelloFrameFrom P serverPub readFullFeed maxScan maxPayload feed).1 =
        (readHelloFrameFrom P serverPub readFullFeed maxScan maxPayload feed').1 ∧
      SameBytes (readHelloFrameFrom P serverPub readFullFeed maxScan maxPayload feed).2
        (readHelloFrameFrom P serverPub readFullFeed maxScan maxPayload feed').2) ∧
    ∀ feed : Feed UInt8,
      Took (max helloFrameOverhead (scanLimit maxScan) + payloadLimit maxPayload) feed
        (readHelloFrameFrom P serverPub readFullFeed maxScan maxPayload feed).2 := by
  refine ⟨fun feed hfeed => ?_, fun feed feed' hsame => ?_,
    took_readHelloFrameFrom P serverPub maxScan maxPayload⟩
  · have halike := readHelloFrameFrom_alike P serverPub (readFullFeed_bytes feed.later) maxScan
      maxPayload ⟨hfeed, rfl⟩
    rw [readHelloFrameFrom_readFull] at halike
    split
    · rw [readHelloFrame_reached hP hframe hn hclean hpay (by omega)] at halike
      obtain ⟨heq, hrest⟩ | ⟨e, e', -, -, text, -, hfail, -⟩ := halike
      · exact ⟨heq, hrest.1, hrest.2⟩
      · exact absurd hfail (by simp)
    · rw [readHelloFrame_missed hP hframe hn hclean hscan (by omega)] at halike
      obtain ⟨heq, hrest⟩ | ⟨e, e', he, -, text, -, hfail, htext⟩ := halike
      · exact ⟨⟨_, heq⟩, hrest.1, hrest.2⟩
      · exact absurd (Except.error.inj hfail) (notFound_ne he htext)
  · obtain hok | ⟨e, e', rfl, hrest, text, hfail, hfail', -⟩ :=
      readHelloFrameFrom_alike P serverPub readFullFeed_sameBytes maxScan maxPayload hsame
    · exact hok
    · exact ⟨hfail.trans hfail'.symm, hrest⟩

/-- Sixteen different bytes. -/
def sampleNonce : Bytes := (List.range 16).map UInt8.ofNat

/-- A frame behind three other bytes, cut inside its nonce, at the limit. -/
theorem readHelloFrame_cut :
    ∃ frame, buildHelloFrame .sample [1] [9, 9] sampleNonce = .ok frame ∧
      Unambiguous .sample [1] [1, 2, 3] frame ∧
      (readHelloFrameFrom .sample [1] readFullFeed 31 2
        [.data ([1, 2, 3] ++ frame.take 10), .data [], .data (frame.drop 10 ++ [7])]).1 =
          .ok [9, 9] := by
  obtain ⟨frame, hframe⟩ : ∃ frame,
      buildHelloFrame .sample [1] [9, 9] sampleNonce = .ok frame := ⟨_, rfl⟩
  have hclean : Unambiguous .sample [1] [1, 2, 3] frame := by
    obtain rfl := Except.ok.inj hframe
    unfold Unambiguous
    decide +kernel
  refine ⟨frame, hframe, hclean, ?_⟩
  have hbytes : Feed.beforeFault [.data ([1, 2, 3] ++ frame.take 10), .data [],
      .data (frame.drop 10 ++ [7])] = [1, 2, 3] ++ frame ++ [7] := by
    simp [Feed.beforeFault, ← List.append_assoc]
  have hexact := (readHelloFrame_exact sample_lawful hframe rfl hclean
    (by decide : (helloFrameOverhead : ℤ) ≤ 31) (by decide : (([9, 9] : Bytes).length : ℤ) ≤ 2)
    [7]).1 _ hbytes
  rw [if_pos (by decide)] at hexact
  exact hexact.1

end Feeds

end ObsidianVPN.Handshake
