import ObsidianVPN.Lib.Runs
import ObsidianVPN.Protocol.Tunnel

/-!
# What a tunnel puts on its connection

`writePacket` frames a payload and writes the frame with as many calls of `conn.Write` as it takes.
A failure cancels the context of the tunnel, which `writePacket` itself never looks at.

* `writeFrameLocked`: the loop over `conn.Write`;
* `Tunnel.attempt`: `writePacket` with the bytes it puts on the connection, and
  `attempt_writePacket`: the tunnel afterwards is that of `Tunnel.writePacket`;
* `Tunnel.writeAll`: a sequence of calls, with the rounds of `recvLoop` between them;
* `StreamFramer.Refuses`, `refuses_iff`: when there is no frame to write;
* `WholeFrames`, `Quiet`: frames in order with at most one incomplete one at the end, and silence
  after a failure; **`wholeFrames_of_quiet`**;
* **`quiet_iff`**: a tunnel is quiet exactly when no call after a failure reaches a connection that
  still takes bytes.
-/

namespace ObsidianVPN.Protocol

open ByteStr Runs

/-! ## The loop over `conn.Write` -/

/-- What one call of `conn.Write` returns. -/
structure WriteResult where
  n : ℤ
  err : Option String

/-- `writeFrameLocked`, for the results of its calls of `conn.Write`: the bytes that the connection
has taken and the error. After the given results the connection takes all the rest. -/
def writeFrameLocked : List WriteResult → Bytes → Bytes × Option String
  | [], frame => (frame, none)
  | w :: ws, frame =>
    if frame.length = 0 then ([], none)
    else
      match w.err with
      | some err => (frame.take w.n.toNat, some err)
      | none =>
        if w.n ≤ 0 then ([], some "short write")
        else if w.n > frame.length then (frame, some "connection write exceeded frame length")
        else
          let rest := writeFrameLocked ws (frame.drop w.n.toNat)
          (frame.take w.n.toNat ++ rest.1, rest.2)

/-- The first call of `conn.Write` takes nothing. -/
def TakesNothing : List WriteResult → Prop
  | [] => False
  | w :: _ => w.n ≤ 0

theorem writeFrameLocked_isPrefix (ws : List WriteResult) (frame : Bytes) :
    (writeFrameLocked ws frame).1 <+: frame := by
  induction ws generalizing frame with
  | nil => exact List.prefix_rfl
  | cons w ws ih =>
    unfold writeFrameLocked
    split
    · exact List.nil_prefix
    · split
      · exact List.take_prefix _ _
      · split
        · exact List.nil_prefix
        · split
          · exact List.prefix_rfl
          · have hrest := (List.prefix_append_right_inj (frame.take w.n.toNat)).mpr
              (ih (frame.drop w.n.toNat))
            rwa [List.take_append_drop] at hrest

/-- Without an error the whole frame has been written. -/
theorem writeFrameLocked_eq_of_ok (ws : List WriteResult) (frame : Bytes)
    (h : (writeFrameLocked ws frame).2 = none) : (writeFrameLocked ws frame).1 = frame := by
  induction ws generalizing frame with
  | nil => rfl
  | cons w ws ih =>
    unfold writeFrameLocked at h ⊢
    split at h
    · rename_i hempty
      rw [if_pos hempty, List.length_eq_zero_iff.mp hempty]
    · rename_i hne
      rw [if_neg hne]
      cases herr : w.err with
      | some err => simp [herr] at h
      | none =>
        simp only [herr] at h ⊢
        split at h
        · simp at h
        · rename_i hpos
          split at h
          · simp at h
          · rename_i hle
            rw [if_neg hpos, if_neg hle, ih _ h, List.take_append_drop]

/-- A connection takes nothing of a frame exactly when its first call takes nothing. -/
theorem writeFrameLocked_eq_nil_iff (ws : List WriteResult) {frame : Bytes} (hne : frame ≠ []) :
    (writeFrameLocked ws frame).1 = [] ↔ TakesNothing ws := by
  have hlen : frame.length ≠ 0 := fun h => hne (List.length_eq_zero_iff.mp h)
  cases ws with
  | nil => exact iff_of_false hne not_false
  | cons w ws =>
    simp only [writeFrameLocked, hlen, if_false, TakesNothing]
    have htake : frame.take w.n.toNat = [] ↔ w.n ≤ 0 := by
      rw [List.take_eq_nil_iff, Int.toNat_eq_zero]
      exact or_iff_left hne
    split
    · exact htake
    · split
      · rename_i hn
        exact iff_of_true rfl hn
      · rename_i hn
        split
        · exact iff_of_false hne hn
        · refine iff_of_false (fun hnil => hn ?_) hn
          exact htake.mp (List.append_eq_nil_iff.mp hnil).1

/-! ## Calls of `writePacket` -/

/-- A call of `writePacket`: the frame it hands to the connection, with its counter, the bytes the
connection takes, and whether the call cancels the tunnel. -/
structure Attempt where
  frame : Option (ℕ × Bytes)
  put : Bytes
  cancels : Bool

/-- What happens to a tunnel: a call of `writePacket`, with the results of its calls of
`conn.Write`, or a round of `recvLoop`. -/
inductive WriteStep where
  | writePacket (ptype : PacketType) (payload : Bytes) (r : Draws) (now : ℤ) (ws : List WriteResult)
  | recvRound (now : ℤ)

section Calls

variable (P : Primitives)

/-- `writePacket`, seen from the connection. -/
def Tunnel.attempt (t : Tunnel) (ptype : PacketType) (payload : Bytes) (r : Draws) (now : ℤ)
    (ws : List WriteResult) : Attempt × Tunnel :=
  let t := t.count
  if t.sessionExpired t.packetCount now then (⟨none, [], true⟩, { t with cancelled := true })
  else
    match t.framer.frameWithBuffer P (writeBufLen payload) ptype payload r with
    | (.error _, f) => (⟨none, [], false⟩, { t with framer := f })
    | (.ok frame, f) =>
      let ctr := t.framer.encFrameCtr
      match writeFrameLocked ws frame with
      | (put, some _) => (⟨some (ctr, frame), put, true⟩, { t with framer := f, cancelled := true })
      | (put, none) => (⟨some (ctr, frame), put, false⟩, { t with framer := f })

def Tunnel.write (t : Tunnel) : WriteStep → List Attempt × Tunnel
  | .writePacket ptype payload r now ws =>
    let a := t.attempt P ptype payload r now ws
    ([a.1], a.2)
  | .recvRound now => ([], t.recvRound now)

/-- The calls of a run, and the tunnel after it. -/
def Tunnel.writeAll (t : Tunnel) : List WriteStep → List Attempt × Tunnel
  | [] => ([], t)
  | s :: steps =>
    let first := t.write P s
    let rest := first.2.writeAll steps
    (first.1 ++ rest.1, rest.2)

/-- The framer does not frame the payload: it is too long, no size is drawn for the padding, there is
no type id to draw, or the seal is too short to mask the header. The buffer of `writePacket` is long
enough for every padding. -/
def StreamFramer.Refuses (f : StreamFramer) (ptype : PacketType) (payload : Bytes) (r : Draws) :
    Prop :=
  let bounds := f.padBounds ptype payload r
  maxPayload < payload.length ∨
  maxPad bounds.1 bounds.2 < 0 ∨ ¬SizeDrawn bounds.1 bounds.2 r.pad ∨
  (f.headerCfg.rangeFor ptype).Full ∨
  (f.encHeaderKey ≠ none ∧ ∃ padLen typeID, padLength bounds.1 bounds.2 r.pad = .ok padLen ∧
    (f.headerCfg.rangeFor ptype).pick r.typeID = .ok typeID ∧
    (f.encCipher.encrypt P.suite (payload ++ fill padLen r.padding)
      (packetAAD typeID payload.length padLen)).1.length < 16)

/-- The step reaches no connection that takes bytes: it is no call, it is refused by the expiry
check or the framer, or the connection takes nothing. -/
def WriteStep.Silent (t : Tunnel) : WriteStep → Prop
  | .writePacket ptype payload r now ws =>
    t.sessionExpired t.count.packetCount now = true ∨ t.framer.Refuses P ptype payload r ∨
    TakesNothing ws
  | .recvRound _ => True

end Calls

/-- The bytes on the connection. -/
def wireOf (as : List Attempt) : Bytes := (as.map Attempt.put).flatten

/-- The frames handed to the connection. -/
def framesOf (as : List Attempt) : List (ℕ × Bytes) := as.filterMap Attempt.frame

/-- The connection carries whole frames, the first ones handed to it, and then at most one
incomplete frame. -/
def WholeFrames (as : List Attempt) : Prop :=
  ∃ (done : List (ℕ × Bytes)) (last : Bytes),
    wireOf as = (done.map Prod.snd).flatten ++ last ∧
    ((done <+: framesOf as ∧ last = []) ∨
      ∃ f, done ++ [f] <+: framesOf as ∧ last <+: f.2 ∧ last ≠ f.2)

/-- After a call that cancels the tunnel no call puts anything on the connection. -/
def Quiet (as : List Attempt) : Prop :=
  as.Pairwise fun a b => a.cancels = true → b.put = []

variable {P : Primitives}

/-- The connection gets a part of the frame, and all of it if the call does not cancel. -/
structure Attempt.Sound (a : Attempt) : Prop where
  nothing : a.frame = none → a.put = []
  part : ∀ f, a.frame = some f → a.put <+: f.2
  whole : ∀ f, a.frame = some f → a.cancels = false → a.put = f.2

theorem frameWithBuffer_cases (f : StreamFramer) (dstLen : ℕ) (ptype : PacketType) (payload : Bytes)
    (r : Draws) :
    ((∃ err, (f.frameWithBuffer P dstLen ptype payload r).1 = .error err) ∧
      (f.frameWithBuffer P dstLen ptype payload r).2.encFrameCtr = f.encFrameCtr) ∨
    (∃ frame, (f.frameWithBuffer P dstLen ptype payload r).1 = .ok frame ∧ frame ≠ []) ∧
      (f.frameWithBuffer P dstLen ptype payload r).2.encFrameCtr = f.encFrameCtr + 1 := by
  simp only [StreamFramer.frameWithBuffer]
  split
  · exact .inl ⟨⟨_, rfl⟩, rfl⟩
  · unfold StreamFramer.finishFrame
    split
    · exact .inl ⟨⟨_, rfl⟩, rfl⟩
    · refine .inr ⟨⟨_, rfl, fun hnil => ?_⟩, rfl⟩
      have := congrArg List.length hnil
      simp at this

theorem padLength_isOk_iff (padMin padMax : ℤ) (draw : ℕ) :
    (∃ n, padLength padMin padMax draw = .ok n) ↔
      0 ≤ maxPad padMin padMax ∧ SizeDrawn padMin padMax draw := by
  unfold padLength
  split
  · rename_i hneg
    exact iff_of_false (by simp) fun h => absurd h.1 (not_le.mpr hneg)
  · rename_i hpos
    rw [fastRandomPaddingInplace_isOk_iff]
    exact (and_iff_right (not_lt.mp hpos)).symm

theorem padLength_le {padMin padMax : ℤ} {draw n : ℕ} (h : padLength padMin padMax draw = .ok n) :
    n ≤ 255 := by
  unfold padLength at h
  split at h
  · cases h
  · have hle := fastRandomPaddingInplace_le h
    have h255 : maxPad padMin padMax ≤ 255 := by
      unfold maxPad
      dsimp only
      split <;> omega
    omega

theorem xorPacketHeader_isOk_iff {header : Bytes} (hlen : header.length = packetHeaderSize)
    (key : Option Bytes) (sample : Bytes) :
    (∃ masked, xorPacketHeader P header key sample = .ok masked) ↔
      ¬(key ≠ none ∧ sample.length < 16) := by
  cases key with
  | none => simp [xorPacketHeader]
  | some key =>
    by_cases hshort : sample.length < 16
    · simp [xorPacketHeader, hlen, hshort]
    · simp [xorPacketHeader, hlen, hshort]

theorem finishFrame_isError_iff (f : StreamFramer) (encoded : Except String Bytes × Cipher Bytes) :
    (∃ err, (f.finishFrame P encoded).1 = .error err) ↔ ∃ err, encoded.1 = .error err := by
  obtain ⟨_ | pkt, c⟩ := encoded
  · simp [StreamFramer.finishFrame]
  · simp [StreamFramer.finishFrame]

/-- In a buffer that is long enough, an encoding call fails on the payload, on the size of the
padding, on the type id or on the header. -/
theorem encode_isError_iff {dstLen : ℕ} (c : Cipher Bytes) (headerKey : Option Bytes)
    (hc : HeaderConfig) (ptype : PacketType) {payload : Bytes} (padMin padMax : ℤ) (r : Draws)
    (hroom : packetHeaderSize + payload.length + 255 + tagSize ≤ dstLen) :
    (∃ err, (encodePacketWithHeaderProtectionBuffer P dstLen c headerKey hc ptype payload padMin
        padMax r).1 = .error err) ↔
      maxPayload < payload.length ∨ ¬(∃ n, padLength padMin padMax r.pad = .ok n) ∨
      ¬(∃ id, (hc.rangeFor ptype).pick r.typeID = .ok id) ∨
      ∃ padLen typeID, padLength padMin padMax r.pad = .ok padLen ∧
        (hc.rangeFor ptype).pick r.typeID = .ok typeID ∧
        ¬∃ header, xorPacketHeader P (packetAAD typeID payload.length padLen) headerKey
          ((c.encrypt P.suite (payload ++ fill padLen r.padding)
            (packetAAD typeID payload.length padLen)).1.take tagSize) = .ok header := by
  unfold encodePacketWithHeaderProtectionBuffer
  by_cases hlong : maxPayload < payload.length
  · simp [hlong]
  rw [if_neg hlong, or_iff_right hlong]
  cases hpadLen : padLength padMin padMax r.pad with
  | error err => simp
  | ok padLen =>
    have hfits : ¬dstLen < packetHeaderSize + (payload ++ fill padLen r.padding).length + tagSize := by
      have := padLength_le hpadLen
      simp only [List.length_append, length_fill]
      omega
    dsimp only
    rw [if_neg hfits]
    cases hid : (hc.rangeFor ptype).pick r.typeID with
    | error err => simp
    | ok typeID =>
      dsimp only
      cases hheader : xorPacketHeader P (packetAAD typeID payload.length padLen) headerKey
          ((c.encrypt P.suite (payload ++ fill padLen r.padding)
            (packetAAD typeID payload.length padLen)).1.take tagSize) with
      | error err => simp [hheader]
      | ok header => simp [hheader]

/-- **When the framer refuses a payload of `writePacket`.** -/
theorem refuses_iff (f : StreamFramer) (ptype : PacketType) (payload : Bytes) (r : Draws) :
    (∃ err, (f.frameWithBuffer P (writeBufLen payload) ptype payload r).1 = .error err) ↔
      f.Refuses P ptype payload r := by
  have hbuf : ¬writeBufLen payload < 4 := by
    unfold writeBufLen
    omega
  have hroom : packetHeaderSize + payload.length + 255 + tagSize ≤ writeBufLen payload - 4 := by
    unfold writeBufLen
    omega
  have htake : ∀ ct : Bytes, (ct.take tagSize).length < 16 ↔ ct.length < 16 := by
    intro ct
    simp [tagSize]
  simp only [StreamFramer.frameWithBuffer, if_neg hbuf, finishFrame_isError_iff,
    encode_isError_iff _ _ _ _ _ _ _ hroom, padLength_isOk_iff, HeaderRange.pick_isOk_iff,
    xorPacketHeader_isOk_iff (length_packetAAD _ _ _), htake, not_not, not_and_or, not_le]
  unfold StreamFramer.Refuses
  rw [or_assoc]
  dsimp only
  -- What is left is that the header key does not depend on the padding and the type id.
  by_cases hkey : f.encHeaderKey = none
  · simp [hkey]
  · simp [hkey]

/-- **What a call can do.** Either nothing reaches the connection, or a frame with the current
counter does. -/
theorem attempt_cases (t : Tunnel) (ptype : PacketType) (payload : Bytes) (r : Draws) (now : ℤ)
    (ws : List WriteResult) :
    ((t.sessionExpired t.count.packetCount now = true ∨ ∃ err,
        (t.framer.frameWithBuffer P (writeBufLen payload) ptype payload r).1 = .error err) ∧
      (t.attempt P ptype payload r now ws).1.frame = none ∧
      (t.attempt P ptype payload r now ws).1.put = [] ∧
      (t.attempt P ptype payload r now ws).2.framer.encFrameCtr = t.framer.encFrameCtr) ∨
    (¬(t.sessionExpired t.count.packetCount now = true ∨ ∃ err,
        (t.framer.frameWithBuffer P (writeBufLen payload) ptype payload r).1 = .error err) ∧
      ∃ frame, frame ≠ [] ∧
        (t.attempt P ptype payload r now ws).1 = ⟨some (t.framer.encFrameCtr, frame),
          (writeFrameLocked ws frame).1, (writeFrameLocked ws frame).2.isSome⟩ ∧
        (t.attempt P ptype payload r now ws).2.framer.encFrameCtr = t.framer.encFrameCtr + 1) := by
  have hframe := frameWithBuffer_cases (P := P) t.framer (writeBufLen payload) ptype payload r
  unfold Tunnel.attempt
  by_cases hexp : t.sessionExpired t.count.packetCount now = true
  · have hexp' : t.count.sessionExpired t.count.packetCount now = true := hexp
    dsimp only
    rw [if_pos hexp']
    exact .inl ⟨.inl hexp, rfl, rfl, rfl⟩
  · have hexp' : ¬t.count.sessionExpired t.count.packetCount now = true := hexp
    simp only [hexp', show t.count.framer = t.framer from rfl, if_false, Bool.false_eq_true]
    rcases hres : t.framer.frameWithBuffer P (writeBufLen payload) ptype payload r with ⟨res, f⟩
    rw [hres] at hframe
    rcases hframe with ⟨⟨err, herr⟩, hctr⟩ | ⟨⟨frame, hok, hne⟩, hctr⟩
    · obtain rfl : res = .error err := herr
      exact .inl ⟨.inr ⟨err, rfl⟩, rfl, rfl, hctr⟩
    · obtain rfl : res = .ok frame := hok
      refine .inr ⟨by simp [hexp], frame, hne, ?_⟩
      dsimp only
      rcases writeFrameLocked ws frame with ⟨put, _ | err⟩
      · exact ⟨rfl, hctr⟩
      · exact ⟨rfl, hctr⟩

/-- The tunnel after a call is that of `Tunnel.writePacket`, with the error of the connection. -/
theorem attempt_writePacket (t : Tunnel) (ptype : PacketType) (payload : Bytes) (r : Draws) (now : ℤ)
    (ws : List WriteResult) : ∃ connErr,
      (t.attempt P ptype payload r now ws).2 = (t.writePacket P ptype payload r now connErr).2 := by
  unfold Tunnel.attempt Tunnel.writePacket
  dsimp only
  split
  · exact ⟨none, rfl⟩
  · rcases t.count.framer.frameWithBuffer P (writeBufLen payload) ptype payload r with ⟨_ | frame, f⟩
    · exact ⟨none, rfl⟩
    · rcases hw : writeFrameLocked ws frame with ⟨put, connErr⟩
      refine ⟨connErr, ?_⟩
      simp only [hw]
      cases connErr <;> rfl

theorem attempt_sound (t : Tunnel) (ptype : PacketType) (payload : Bytes) (r : Draws) (now : ℤ)
    (ws : List WriteResult) : (t.attempt P ptype payload r now ws).1.Sound := by
  rcases attempt_cases (P := P) t ptype payload r now ws with
    ⟨-, hframe, hput, -⟩ | ⟨-, frame, -, heq, -⟩
  · exact ⟨fun _ => hput, by simp [hframe], by simp [hframe]⟩
  · rw [heq]
    refine ⟨by simp, fun f hf => ?_, fun f hf hok => ?_⟩
    · obtain rfl := Option.some.inj hf
      exact writeFrameLocked_isPrefix ws frame
    · obtain rfl := Option.some.inj hf
      exact writeFrameLocked_eq_of_ok ws frame (Option.not_isSome_iff_eq_none.mp (by simpa using hok))

/-- A call puts nothing on the connection exactly when it is silent. -/
theorem attempt_put_eq_nil_iff (t : Tunnel) (ptype : PacketType) (payload : Bytes) (r : Draws)
    (now : ℤ) (ws : List WriteResult) :
    (t.attempt P ptype payload r now ws).1.put = [] ↔
      (WriteStep.writePacket ptype payload r now ws).Silent P t := by
  rcases attempt_cases (P := P) t ptype payload r now ws with
    ⟨hrefused, -, hput, -⟩ | ⟨hsent, frame, hne, heq, -⟩
  · rw [refuses_iff] at hrefused
    exact iff_of_true hput (or_assoc.mp (.inl hrefused))
  · rw [refuses_iff] at hsent
    rw [heq, WriteStep.Silent, ← or_assoc, or_iff_right hsent]
    exact writeFrameLocked_eq_nil_iff ws hne

/-! ## Runs -/

theorem writeAll_append (t : Tunnel) (steps more : List WriteStep) :
    t.writeAll P (steps ++ more) =
      ((t.writeAll P steps).1 ++ ((t.writeAll P steps).2.writeAll P more).1,
        ((t.writeAll P steps).2.writeAll P more).2) := by
  induction steps generalizing t with
  | nil => rfl
  | cons s steps ih => simp only [List.cons_append, Tunnel.writeAll, ih, List.append_assoc]

theorem writeAll_sound (t : Tunnel) (steps : List WriteStep) :
    ∀ a ∈ (t.writeAll P steps).1, a.Sound := by
  induction steps generalizing t with
  | nil => simp [Tunnel.writeAll]
  | cons s steps ih =>
    intro a ha
    rcases List.mem_append.mp ha with ha | ha
    · cases s with
      | writePacket ptype payload r now ws =>
        obtain rfl := List.mem_singleton.mp ha
        exact attempt_sound t ptype payload r now ws
      | recvRound now => simp [Tunnel.write] at ha
    · exact ih _ a ha

/-- **The frames of a run have consecutive counters.** -/
theorem framesOf_counters (t : Tunnel) (steps : List WriteStep) :
    (framesOf (t.writeAll P steps).1).map Prod.fst =
      List.range' t.framer.encFrameCtr (framesOf (t.writeAll P steps).1).length := by
  induction steps generalizing t with
  | nil => rfl
  | cons s steps ih =>
    simp only [Tunnel.writeAll, framesOf, List.filterMap_append]
    cases s with
    | writePacket ptype payload r now ws =>
      have hrest := ih (t.attempt P ptype payload r now ws).2
      rcases attempt_cases (P := P) t ptype payload r now ws with
        ⟨-, hframe, -, hctr⟩ | ⟨-, frame, -, heq, hctr⟩
      · simp only [Tunnel.write, List.filterMap_cons, List.filterMap_nil, hframe, List.nil_append]
        rw [hctr] at hrest
        exact hrest
      · simp only [Tunnel.write, List.filterMap_cons, List.filterMap_nil, heq, List.cons_append,
          List.nil_append, List.map_cons, List.length_cons, List.range'_succ]
        rw [hctr] at hrest
        exact congrArg _ hrest
    | recvRound now =>
      have hframer : (t.recvRound now).framer = t.framer := by
        unfold Tunnel.recvRound
        simp only
        split <;> rfl
      have hrest := ih (t.recvRound now)
      rw [hframer] at hrest
      exact hrest

/-- **Silence after a failure keeps the stream of frames whole.** -/
theorem wholeFrames_of_quiet {as : List Attempt} (hsound : ∀ a ∈ as, a.Sound) (h : Quiet as) :
    WholeFrames as := by
  induction as with
  | nil => exact ⟨[], [], rfl, .inl ⟨List.nil_prefix, rfl⟩⟩
  | cons a as ih =>
    obtain ⟨hlater, hquiet⟩ := List.pairwise_cons.mp h
    obtain ⟨hnothing, hpart, hwhole⟩ := hsound a List.mem_cons_self
    obtain ⟨done, last, hwire, hrest⟩ := ih (fun b hb => hsound b (List.mem_cons_of_mem a hb)) hquiet
    have hcons : wireOf (a :: as) = a.put ++ wireOf as := rfl
    cases hframe : a.frame with
    | none =>
      have hframes : framesOf (a :: as) = framesOf as := by simp [framesOf, hframe]
      exact ⟨done, last, by rw [hcons, hnothing hframe, hwire]; rfl, by rwa [hframes]⟩
    | some f =>
      have hframes : framesOf (a :: as) = f :: framesOf as := by simp [framesOf, hframe]
      by_cases hput : a.put = f.2
      · refine ⟨f :: done, last, ?_, ?_⟩
        · rw [hcons, hput, hwire]
          simp
        · rw [hframes]
          rcases hrest with ⟨hdone, hlast⟩ | ⟨g, hdone, hlast⟩
          · exact .inl ⟨List.cons_prefix_cons.mpr ⟨rfl, hdone⟩, hlast⟩
          · exact .inr ⟨g, List.cons_prefix_cons.mpr ⟨rfl, hdone⟩, hlast⟩
      · -- an incomplete frame: the call has cancelled the tunnel, and nothing follows
        have hcancels : a.cancels = true := by
          by_contra hc
          exact hput (hwhole f hframe (by simpa using hc))
        have hsilent : wireOf as = [] := by
          rw [wireOf, List.flatten_eq_nil_iff]
          intro b hb
          obtain ⟨c, hc, rfl⟩ := List.mem_map.mp hb
          exact hlater c hc hcancels
        refine ⟨[], a.put, by rw [hcons, hsilent]; simp, .inr ⟨f, ?_, hpart f hframe, hput⟩⟩
        rw [hframes]
        exact List.cons_prefix_cons.mpr ⟨rfl, List.nil_prefix⟩

/-- What the connection carries is then an initial part of the frames handed to it. -/
theorem WholeFrames.isPrefix {as : List Attempt} (h : WholeFrames as) :
    wireOf as <+: ((framesOf as).map Prod.snd).flatten := by
  obtain ⟨done, last, hwire, ⟨⟨rest, hframes⟩, rfl⟩ | ⟨f, ⟨rest, hframes⟩, ⟨tail, hlast⟩, -⟩⟩ := h
  · rw [hwire, ← hframes, List.append_nil, List.map_append, List.flatten_append]
    exact List.prefix_append _ _
  · refine ⟨tail ++ (rest.map Prod.snd).flatten, ?_⟩
    rw [hwire, ← hframes]
    simp [← hlast]

theorem quiet_concat (as bs : List Attempt) :
    Quiet (as ++ bs) ↔ Quiet as ∧ Quiet bs ∧ ∀ a ∈ as, ∀ b ∈ bs, a.cancels = true → b.put = [] :=
  List.pairwise_append

/-- **When a tunnel is quiet.** The calls put whole frames on the connection in the order of their
counters, with at most one incomplete frame at the end and nothing after a failure, exactly when
every call made after a failure is silent: refused by the expiry check or the framer, or met by a
connection that takes nothing. -/
theorem quiet_iff (t : Tunnel) (steps : List WriteStep) :
    (WholeFrames (t.writeAll P steps).1 ∧
      (framesOf (t.writeAll P steps).1).map Prod.fst =
        List.range' t.framer.encFrameCtr (framesOf (t.writeAll P steps).1).length ∧
      Quiet (t.writeAll P steps).1) ↔
    EachStep (fun pre s => (∃ a ∈ (t.writeAll P pre).1, a.cancels = true) →
      s.Silent P (t.writeAll P pre).2) steps := by
  have hquiet : Quiet (t.writeAll P steps).1 ↔
      EachStep (fun pre s => (∃ a ∈ (t.writeAll P pre).1, a.cancels = true) →
        s.Silent P (t.writeAll P pre).2) steps := by
    induction steps using List.reverseRecOn with
    | nil => exact iff_of_true .nil (eachStep_nil _)
    | append_singleton steps s ih =>
      rw [eachStep_concat, ← ih, writeAll_append, quiet_concat]
      refine and_congr_right fun _ => ?_
      cases s with
      | recvRound now => simp [Tunnel.writeAll, Tunnel.write, WriteStep.Silent, Quiet]
      | writePacket ptype payload r now ws =>
        rw [← attempt_put_eq_nil_iff]
        simp [Tunnel.writeAll, Tunnel.write, Quiet]
  constructor
  · exact fun h => hquiet.mp h.2.2
  · exact fun h => ⟨wholeFrames_of_quiet (writeAll_sound t steps) (hquiet.mpr h),
      framesOf_counters t steps, hquiet.mpr h⟩

section Samples

def sampleTunnel : Tunnel := ⟨sampleSender, 0, 0, 0, 0, false⟩

/-- A frame of which the connection takes three bytes, and then a frame that it takes whole. -/
def brokenWrites : List WriteStep :=
  [.writePacket .data [1, 2] ⟨0, 0, 0, fun _ => 0⟩ 0 [⟨3, some "i/o timeout"⟩],
    .writePacket .data [3] ⟨0, 0, 0, fun _ => 0⟩ 0 []]

/-- The second call does not notice that the tunnel has been cancelled: the second frame follows
three bytes of the first. -/
theorem writes_after_failure :
    ¬Quiet (sampleTunnel.writeAll .sample brokenWrites).1 ∧
      (sampleTunnel.writeAll .sample (brokenWrites.take 1)).2.cancelled = true ∧
      ¬WholeFrames (sampleTunnel.writeAll .sample brokenWrites).1 := by
  refine ⟨?_, by decide +kernel, fun h => ?_⟩
  · unfold Quiet
    decide +kernel
  · exact absurd h.isPrefix (by decide +kernel)

end Samples

end ObsidianVPN.Protocol
