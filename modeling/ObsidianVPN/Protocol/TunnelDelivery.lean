import ObsidianVPN.Protocol.TunnelLoop

/-!
# Delivery over an honest network

A network is honest in one direction if the bytes that arrive are an initial part of those that the
other end has put on its connection. How the bytes are cut into pieces, and when the pieces arrive,
is left open.

* `Position`: where in the stream of frames the loop stands, `Faithful`: the invariant;
* `Waiting`: the loop waits for bytes; `loopSteps_le`: the loop does not go on for ever;
* **`delivery_complete`**: the loop accepts every frame. Once it waits for bytes, every DATA packet
  whose frame has arrived is in the channel or has been taken out of it.
-/

namespace ObsidianVPN.Protocol

open ByteStr Machine

/-! ## The next frame of a stream -/

/-- After the first `k` strings of a concatenation comes the next one. -/
theorem exists_next {frames : List Bytes} {k : ℕ} {x : Bytes} (hx : x ≠ [])
    (h : (frames.take k).flatten ++ x <+: frames.flatten) :
    ∃ frame rest, frames[k]? = some frame ∧ x <+: frame ++ rest := by
  have hsplit : frames.flatten = (frames.take k).flatten ++ (frames.drop k).flatten := by
    rw [← List.flatten_append, List.take_append_drop]
  rw [hsplit, List.prefix_append_right_inj] at h
  cases hd : frames.drop k with
  | nil =>
    rw [hd] at h
    exact absurd (List.prefix_nil.mp h) hx
  | cons frame rest =>
    rw [hd] at h
    refine ⟨frame, rest.flatten, ?_, by simpa using h⟩
    have := congrArg (·[0]?) hd
    simpa using this

theorem take_succ_flatten {frames : List Bytes} {k : ℕ} {frame : Bytes}
    (h : frames[k]? = some frame) :
    (frames.take (k + 1)).flatten = (frames.take k).flatten ++ frame := by
  rw [List.take_add_one, h]
  simp

theorem take_flatten_isPrefix (frames : List Bytes) {j k : ℕ} (h : j ≤ k) :
    (frames.take j).flatten <+: (frames.take k).flatten := by
  have : frames.take j <+: frames.take k := List.take_prefix_take_left h
  obtain ⟨rest, hrest⟩ := this
  rw [← hrest, List.flatten_append]
  exact List.prefix_append _ _

/-! ## Where the loop stands -/

/-- The frames of an end. -/
def TunnelEnd.frames (e : TunnelEnd) : List Bytes := e.framed.map Framed.frame

/-- The bytes that have arrived are the frames parsed, the length of the next frame if the loop has
read it, and what is left to read. -/
inductive Position (a b : TunnelEnd) : Prop where
  | between (hloop : b.loop.lensRead = 0)
      (harrived : b.arrived = (a.frames.take b.parsed.length).flatten ++ b.inbox)
  | inside (n : ℕ) (s : Framed) (hloop : b.loop = .readFrame n)
      (hs : a.framed[b.parsed.length]? = some s) (hn : n = (s.frame.drop 4).length)
      (harrived : b.arrived =
        (a.frames.take b.parsed.length).flatten ++ s.frame.take 4 ++ b.inbox)

/-- The loop has not found fault with a frame. -/
def Ending.Clean : Ending → Prop
  | .invalidLen _ => False
  | .parseFailed _ => False
  | _ => True

def RecvLoop.Clean : RecvLoop → Prop
  | .ended why => why.Clean
  | _ => True

variable {P : Primitives}

/-- What holds over an honest network. -/
structure Faithful (P : Primitives) (f g : StreamFramer) (a b : TunnelEnd) : Prop
    extends Loyal P f g a b where
  arrived : b.arrived <+: wireOf a.attempts
  clean : b.loop.Clean
  position : b.loop.Running → Position a b

/-- The bytes are those of the frames, as long as the sender is quiet. -/
theorem Faithful.arrived_frames {f g : StreamFramer} {a b : TunnelEnd} (h : Faithful P f g a b)
    (hq : Quiet a.attempts) : b.arrived <+: a.frames.flatten := by
  have hwhole := (wholeFrames_of_quiet h.sends.sound hq).isPrefix
  rw [h.sends.frames] at hwhole
  exact h.arrived.trans hwhole

theorem genuine_take {f : StreamFramer} {k : ℕ} {s : Framed}
    (h : s.Genuine P f.headerCfg f.encHalf k) :
    s.frame.take 4 = putBE 4 (maskFrameLen P f.encFrameKey (f.encFrameCtr + k)
      (s.frame.drop 4).length) := by
  rw [h.masked, List.take_left' (length_putBE 4 _), ← h.masked]
  rfl

theorem genuine_length {f : StreamFramer} {k : ℕ} {s : Framed}
    (h : s.Genuine P f.headerCfg f.encHalf k) : s.frame.length = 4 + (s.frame.drop 4).length := by
  have := congrArg List.length h.masked
  simpa using this

/-! ## The steps of the sender -/

/-- Calls are only added. -/
theorem attempts_isPrefix {e e' : TunnelEnd} {ev : TunnelEvent} (h : e.step P ev = some e') :
    e.attempts <+: e'.attempts := by
  cases TunnelEnd.stepped_of_step h with
  | write ptype payload r now ws => exact List.prefix_append _ _
  | readLen buf hloop hlen => exact (readLen_alike e).attempts ▸ List.prefix_rfl
  | readFrame n buf hloop hlen => exact (readFrame_alike e n buf).attempts ▸ List.prefix_rfl
  | arrive | round | readError | offer | giveUp | recv | cancel | drain => exact List.prefix_rfl

theorem wireOf_isPrefix {as bs : List Attempt} (h : as <+: bs) : wireOf as <+: wireOf bs := by
  obtain ⟨rest, rfl⟩ := h
  simp only [wireOf, List.map_append, List.flatten_append]
  exact List.prefix_append _ _

theorem take_of_isPrefix {α : Type*} {l m : List α} (h : l <+: m) {k : ℕ} (hk : k ≤ l.length) :
    m.take k = l.take k := by
  obtain ⟨rest, rfl⟩ := h
  exact List.take_append_of_le_length hk

theorem Position.mono {a a' b : TunnelEnd} (h : Position a b) (hframed : a.framed <+: a'.framed)
    (hparsed : b.parsed.length ≤ a.framed.length) : Position a' b := by
  have htake : a'.frames.take b.parsed.length = a.frames.take b.parsed.length :=
    take_of_isPrefix (hframed.map _) (by simpa [TunnelEnd.frames] using hparsed)
  cases h with
  | between hloop harrived => exact .between hloop (by rw [htake]; exact harrived)
  | inside n s hloop hs hn harrived =>
    obtain ⟨rest, hrest⟩ := hframed
    refine .inside n s hloop ?_ hn (by rw [htake]; exact harrived)
    rw [← hrest, List.getElem?_append_left (List.getElem?_eq_some_iff.mp hs).1]
    exact hs

theorem Position.congr {a b b' : TunnelEnd} (h : Position a b) (hparsed : b'.parsed = b.parsed)
    (hinbox : b'.inbox = b.inbox) (harr : b'.arrived = b.arrived)
    (hloop : b'.loop = b.loop ∨ b.loop.lensRead = 0 ∧ b'.loop.lensRead = 0) : Position a b' := by
  cases h with
  | between hl harrived =>
    refine .between ?_ (by rw [hparsed, hinbox, harr]; exact harrived)
    rcases hloop with heq | ⟨-, h0⟩
    · rw [heq]
      exact hl
    · exact h0
  | inside n s hl hs hn harrived =>
    rcases hloop with heq | ⟨h0, -⟩
    · exact .inside n s (heq.trans hl) (by rw [hparsed]; exact hs) hn
        (by rw [hparsed, hinbox, harr]; exact harrived)
    · simp [hl, RecvLoop.lensRead] at h0

theorem Loyal.length_parsed {f g : StreamFramer} {a b : TunnelEnd} (h : Loyal P f g a b) :
    b.parsed.length ≤ a.framed.length := by
  simpa using h.parsed.length_le

section Honest

variable (hP : P.AEADLawful) {f g : StreamFramer} (hm : Matches f g) (hhc : f.headerCfg.Decodable)
  (hpad : f.paddingCfg.NonNegative)

include hP hhc hpad in
theorem Faithful.stepSender {a a' b : TunnelEnd} {ev : TunnelEvent} (h : Faithful P f g a b)
    (hstep : a.step P ev = some a') : Faithful P f g a' b where
  toLoyal := h.toLoyal.stepSender hP hhc hpad hstep
  arrived := h.arrived.trans (wireOf_isPrefix (attempts_isPrefix hstep))
  clean := h.clean
  position hr := (h.position hr).mono (framed_isPrefix hstep) h.toLoyal.length_parsed

/-! ## The steps of the receiver -/

/-- The next frame is at hand as soon as its first byte is. -/
theorem Faithful.next {a b : TunnelEnd} (h : Faithful P f g a b) (hq : Quiet a.attempts)
    (hloop : b.loop = .readLen) (hne : b.inbox ≠ []) :
    ∃ s rest, a.framed[b.parsed.length]? = some s ∧
      s.Genuine P f.headerCfg f.encHalf b.parsed.length ∧ b.inbox <+: s.frame ++ rest ∧
      b.arrived = (a.frames.take b.parsed.length).flatten ++ b.inbox := by
  cases h.position (by simp [hloop, RecvLoop.Running]) with
  | inside n s hloop' hs hn harrived => simp [hloop] at hloop'
  | between _ harrived =>
    have hwire := h.arrived_frames hq
    rw [harrived] at hwire
    obtain ⟨frame, rest, hframe, hpre⟩ := exists_next hne hwire
    obtain ⟨s, hs, rfl⟩ : ∃ s, a.framed[b.parsed.length]? = some s ∧ s.frame = frame := by
      simpa [TunnelEnd.frames] using hframe
    exact ⟨s, rest, hs, h.sends.genuine _ s hs, hpre, harrived⟩

theorem take_eq_of_isPrefix {α : Type*} {x y rest : List α} {n : ℕ} (h : x <+: y ++ rest)
    (hx : n ≤ x.length) (hy : n ≤ y.length) : x.take n = y.take n := by
  obtain ⟨more, hmore⟩ := h
  have := congrArg (List.take n) hmore
  rwa [List.take_append_of_le_length hx, List.take_append_of_le_length hy] at this

include hm in
/-- **The length of the next frame is read back.** -/
theorem Faithful.readLen {a b : TunnelEnd} (h : Faithful P f g a b) (hq : Quiet a.attempts)
    (hloop : b.loop = .readLen) (hlen : 4 ≤ b.inbox.length) :
    (b.readLen P).loop.Clean ∧ Position a (b.readLen P) := by
  have hne : b.inbox ≠ [] := by
    intro hnil
    simp [hnil] at hlen
  obtain ⟨s, rest, hs, hgen, hpre, harrived⟩ := h.next hq hloop hne
  have hhalf := h.receives.half (by simp [hloop, RecvLoop.Running])
  simp only [StreamFramer.decHalf, hloop, RecvLoop.lensRead, Half.at, Half.mk.injEq] at hhalf
  obtain ⟨-, -, hkey, hctr⟩ := hhalf
  have htake : b.inbox.take 4 = s.frame.take 4 := by
    refine take_eq_of_isPrefix hpre hlen ?_
    rw [genuine_length hgen]
    omega
  have hsmall : (s.frame.drop 4).length < 2 ^ 32 := lt_of_le_of_lt hgen.length_le (by decide)
  have hdecode : (b.tunnel.framer.decodeFrameLen P (getBE (b.inbox.take 4))).1 =
      (s.frame.drop 4).length := by
    rw [htake, genuine_take hgen, getBE_putBE_of_lt (by simpa using maskFrameLen_lt _ _ hsmall),
      StreamFramer.decodeFrameLen, hkey, hctr, hm.frameKey, hm.frameCtr]
    exact maskFrameLen_maskFrameLen _ _ _
  have hsplit : b.inbox = s.frame.take 4 ++ b.inbox.drop 4 := by
    rw [← htake, List.take_append_drop]
  unfold TunnelEnd.readLen
  dsimp only
  rw [hdecode, if_neg (Nat.not_lt.mpr hgen.length_le)]
  refine ⟨trivial, .inside _ s rfl hs rfl ?_⟩
  rw [List.append_assoc, ← hsplit]
  exact harrived

theorem dispatch_between (e : TunnelEnd) (p : Packet) :
    (e.dispatch p).loop.Clean ∧ (e.dispatch p).loop.lensRead = 0 ∧ (e.dispatch p).inbox = e.inbox ∧
      (e.dispatch p).arrived = e.arrived := by
  unfold TunnelEnd.dispatch
  cases p.type <;> exact ⟨trivial, rfl, rfl, rfl⟩

/-- **The next frame is the one the sender has framed**, once all of it has arrived. -/
theorem Faithful.frame {a b : TunnelEnd} (h : Faithful P f g a b) (hq : Quiet a.attempts) {n : ℕ}
    (hloop : b.loop = .readFrame n) (hlen : n ≤ b.inbox.length) :
    ∃ s, a.framed[b.parsed.length]? = some s ∧
      s.Genuine P f.headerCfg f.encHalf b.parsed.length ∧ b.inbox.take n = s.frame.drop 4 ∧
      b.arrived = (a.frames.take b.parsed.length).flatten ++ s.frame.take 4 ++ b.inbox := by
  cases h.position (by simp [hloop, RecvLoop.Running]) with
  | between hl _ => simp [hloop, RecvLoop.lensRead] at hl
  | inside n' s hloop' hs hn harrived =>
    obtain rfl : n = n' := by simpa [hloop] using hloop'
    have hgen := h.sends.genuine _ s hs
    have hwire := h.arrived_frames hq
    rw [harrived, List.append_assoc] at hwire
    have hne : s.frame.take 4 ++ b.inbox ≠ [] := by
      rw [genuine_take hgen]
      simp [← List.length_eq_zero_iff]
    obtain ⟨frame, rest, hframe, hpre⟩ := exists_next hne hwire
    obtain rfl : s.frame = frame := by simpa [TunnelEnd.frames, hs] using hframe
    rw [← List.take_append_drop 4 s.frame, List.append_assoc, List.take_append_drop,
      List.prefix_append_right_inj] at hpre
    refine ⟨s, hs, hgen, ?_, harrived⟩
    rw [take_eq_of_isPrefix hpre hlen hn.le, List.take_of_length_le hn.ge]

include hm in
theorem Faithful.readFrame {a b : TunnelEnd} (h : Faithful P f g a b) (hq : Quiet a.attempts) {n : ℕ}
    (hloop : b.loop = .readFrame n) (hlen : n ≤ b.inbox.length) (buf : ℕ → UInt8) :
    Unforged P a b (.read buf) ∧ (b.readFrame P n buf).loop.Clean ∧
      Position a (b.readFrame P n buf) := by
  obtain ⟨s, hs, hgen, hbytes, harrived⟩ := h.frame hq hloop hlen
  have hhalf := h.receives.half (by simp [hloop, RecvLoop.Running])
  simp only [StreamFramer.decHalf, Half.at, Half.mk.injEq] at hhalf
  obtain ⟨hcipher, hkey, -, -⟩ := hhalf
  have hakey : a.tunnel.framer.encHeaderKey = f.encHeaderKey := congrArg Half.headerKey h.sends.half
  have hacfg : a.tunnel.framer.headerCfg = f.headerCfg := congrArg Prod.fst h.sends.settings
  have hdec : Decodes P b.tunnel.framer.decCipher b.tunnel.framer.decHeaderKey
      b.tunnel.framer.headerCfg (b.inbox.take n) s.packet := by
    rw [hcipher, hm.cipher, hkey, hm.headerKey, h.receives.headerCfg, hm.headerCfg, hbytes]
    exact hgen.decodes
  refine ⟨unforged_of_frame hloop (List.mem_of_getElem? hs) ?_ ?_ ?_ hbytes.symm buf, ?_⟩
  · rw [hgen.counter, hcipher, hm.cipher]
    rfl
  · rw [hakey, hkey, hm.headerKey]
  · rw [hacfg, h.receives.headerCfg, hm.headerCfg]
  rw [readFrame_of_decodes hlen hdec]
  -- the frame is now among those parsed
  have hsplit : b.arrived = (a.frames.take (b.parsed.length + 1)).flatten ++ b.inbox.drop n := by
    have hnext : a.frames[b.parsed.length]? = some s.frame := by simp [TunnelEnd.frames, hs]
    rw [take_succ_flatten hnext, harrived,
      List.append_assoc, List.append_assoc]
    congr 1
    calc s.frame.take 4 ++ b.inbox = s.frame.take 4 ++ (b.inbox.take n ++ b.inbox.drop n) := by
          rw [List.take_append_drop]
      _ = s.frame ++ b.inbox.drop n := by rw [hbytes, ← List.append_assoc, List.take_append_drop]
  obtain ⟨hclean, hlens, hinbox, harr⟩ := dispatch_between { b with
    tunnel := { b.tunnel with
      framer := { b.tunnel.framer with decCipher := b.tunnel.framer.decCipher.next } }
    inbox := b.inbox.drop n } s.packet
  refine ⟨hclean, .between hlens ?_⟩
  rw [harr, hinbox, dispatch_parsed]
  simpa using hsplit

theorem readLen_arrived (e : TunnelEnd) : (e.readLen P).arrived = e.arrived := by
  unfold TunnelEnd.readLen
  dsimp only
  split <;> rfl

theorem readFrame_arrived (e : TunnelEnd) (n : ℕ) (buf : ℕ → UInt8) :
    (e.readFrame P n buf).arrived = e.arrived := by
  unfold TunnelEnd.readFrame
  dsimp only
  split
  · rfl
  · exact (dispatch_between _ _).2.2.2

theorem round_between (e : TunnelEnd) (now : ℤ) :
    (e.round now).loop.Clean ∧ (e.round now).loop.lensRead = 0 := by
  unfold TunnelEnd.round
  dsimp only
  split <;> exact ⟨trivial, rfl⟩

include hm in
/-- **A step of the receiver over an honest network.** -/
theorem Faithful.stepReceiver {a b b' : TunnelEnd} {ev : TunnelEvent} (h : Faithful P f g a b)
    (hq : Quiet a.attempts) (hstep : b.step P ev = some b')
    (hnet : ∀ bytes, ev = .arrive bytes → b.arrived ++ bytes <+: wireOf a.attempts) :
    Faithful P f g a b' := by
  cases TunnelEnd.stepped_of_step hstep with
  | readFrame n buf hloop hlen =>
    obtain ⟨hunf, hclean, hpos⟩ := h.readFrame hm hq hloop hlen buf
    exact ⟨h.toLoyal.stepReceiver hm hstep hunf, readFrame_arrived (P := P) b n buf ▸ h.arrived,
      hclean, fun _ => hpos⟩
  | readLen buf hloop hlen =>
    obtain ⟨hclean, hpos⟩ := h.readLen hm hq hloop hlen
    refine ⟨h.toLoyal.stepReceiver hm hstep ?_, readLen_arrived (P := P) b ▸ h.arrived, hclean,
      fun _ => hpos⟩
    intro n head hloop'
    simp [hloop] at hloop'
  | arrive bytes =>
    refine ⟨h.toLoyal.stepReceiver hm hstep trivial, hnet bytes rfl, h.clean, fun hr => ?_⟩
    cases h.position hr with
    | between hloop harrived =>
      exact .between hloop (by rw [← List.append_assoc, ← harrived])
    | inside n s hloop hs hn harrived =>
      exact .inside n s hloop hs hn (by rw [← List.append_assoc, ← harrived])
  | round now hloop =>
    obtain ⟨hclean, hlens⟩ := round_between b now
    refine ⟨h.toLoyal.stepReceiver hm hstep trivial, h.arrived, hclean, fun _ => ?_⟩
    have hpos := h.position (by simp [hloop, RecvLoop.Running])
    exact hpos.congr rfl rfl rfl (.inr ⟨by rw [hloop]; rfl, hlens⟩)
  | offer p hloop hroom =>
    refine ⟨h.toLoyal.stepReceiver hm hstep trivial, h.arrived, trivial, fun _ => ?_⟩
    have hpos := h.position (by simp [hloop, RecvLoop.Running])
    exact hpos.congr rfl rfl rfl (.inr ⟨by rw [hloop]; rfl, rfl⟩)
  | readError hloop =>
    exact ⟨h.toLoyal.stepReceiver hm hstep trivial, h.arrived, trivial, False.elim⟩
  | giveUp p hloop hctx =>
    exact ⟨h.toLoyal.stepReceiver hm hstep trivial, h.arrived, trivial, False.elim⟩
  | write | recv | cancel | drain =>
    exact ⟨h.toLoyal.stepReceiver hm hstep trivial, h.arrived, h.clean,
      fun hr => (h.position hr).congr rfl rfl rfl (.inl rfl)⟩

include hP hm hhc hpad in
theorem Faithful.step {l l' : TunnelLink} {s : Side} {ev : Side × TunnelEvent}
    (h : Faithful P f g (l s) (l s.other)) (hq : Quiet (l s).attempts)
    (hnet : ∀ bytes, ev = (s.other, .arrive bytes) →
      (l s.other).arrived ++ bytes <+: wireOf (l s).attempts)
    (hstep : TunnelLink.step P l ev = some l') : Faithful P f g (l' s) (l' s.other) := by
  rcases TunnelLink.step_cases hstep s with ⟨-, hs, hother⟩ | ⟨hev, hother, hs⟩
  · rw [hother]
    exact h.stepSender hP hhc hpad hs
  · rw [hs]
    exact h.stepReceiver hm hq hother fun bytes hb => hnet bytes (Prod.ext hev hb)

end Honest

theorem attempts_step {l l' : TunnelLink} {ev : Side × TunnelEvent}
    (h : TunnelLink.step P l ev = some l') (s : Side) : (l s).attempts <+: (l' s).attempts := by
  rcases TunnelLink.step_cases h s with ⟨-, hs, -⟩ | ⟨-, -, hs⟩
  · exact attempts_isPrefix hs
  · rw [hs]

/-! ## The steps of the loop -/

/-- The steps that the loop itself takes. -/
def TunnelEvent.ofLoop : TunnelEvent → ℕ
  | .round _ | .read _ | .readError | .offer | .giveUp => 1
  | _ => 0

/-- How far the loop has come: at most four steps for each packet. -/
def TunnelEnd.progress (e : TunnelEnd) : ℕ :=
  match e.loop with
  | .offer _ => 4 * e.parsed.length
  | .head => 4 * e.parsed.length + 1
  | .readLen => 4 * e.parsed.length + 2
  | .readFrame _ => 4 * e.parsed.length + 3
  | .ended _ => 4 * e.parsed.length + 5

theorem dispatch_progress (e : TunnelEnd) (p : Packet) :
    4 * e.parsed.length + 4 ≤ (e.dispatch p).progress := by
  unfold TunnelEnd.dispatch
  cases p.type <;> simp [TunnelEnd.progress, TunnelEnd.finish] <;> omega

theorem step_progress {e e' : TunnelEnd} {ev : TunnelEvent} (h : e.step P ev = some e') :
    ev.ofLoop + e.progress ≤ e'.progress := by
  cases TunnelEnd.stepped_of_step h with
  | round now hloop =>
    have hbefore : e.progress = 4 * e.parsed.length + 1 := by simp [TunnelEnd.progress, hloop]
    simp only [TunnelEvent.ofLoop, hbefore, TunnelEnd.round]
    split <;> simp only [TunnelEnd.progress] <;> omega
  | readLen buf hloop hlen =>
    have hbefore : e.progress = 4 * e.parsed.length + 2 := by simp [TunnelEnd.progress, hloop]
    simp only [TunnelEvent.ofLoop, hbefore, TunnelEnd.readLen]
    split <;> simp only [TunnelEnd.progress, TunnelEnd.finish] <;> omega
  | readFrame n buf hloop hlen =>
    have hbefore : e.progress = 4 * e.parsed.length + 3 := by simp [TunnelEnd.progress, hloop]
    simp only [TunnelEvent.ofLoop, hbefore, TunnelEnd.readFrame]
    split
    · simp only [TunnelEnd.progress, TunnelEnd.finish]
      omega
    · exact dispatch_progress { e with tunnel := _, inbox := _ } _ |> le_trans (by dsimp only; omega)
  | readError hloop =>
    have hbefore : e.progress ≤ 4 * e.parsed.length + 3 := by
      rcases hloop with hloop | ⟨n, hloop⟩ <;> simp [TunnelEnd.progress, hloop]
    simp only [TunnelEvent.ofLoop, TunnelEnd.finish]
    simp only [TunnelEnd.progress] at hbefore ⊢
    omega
  | offer p hloop hroom => simp [TunnelEvent.ofLoop, TunnelEnd.progress, hloop]; omega
  | giveUp p hloop hctx => simp [TunnelEvent.ofLoop, TunnelEnd.progress, TunnelEnd.finish, hloop]; omega
  | write | arrive | recv | cancel | drain => simp [TunnelEvent.ofLoop, TunnelEnd.progress, TunnelEnd.write]

/-- The steps of the loop of one end. -/
def loopSteps (s : Side) (evs : List (Side × TunnelEvent)) : ℕ :=
  (evs.map fun ev => if ev.1 = s then ev.2.ofLoop else 0).sum

/-- **A loop takes at most four steps for each packet it parses**, and four more. -/
theorem loopSteps_le {t : Side → Tunnel} {evs : List (Side × TunnelEvent)} {l : TunnelLink}
    (hrun : run (TunnelLink.step P) (TunnelLink.start t) evs = some l) (s : Side) :
    loopSteps s evs ≤ 4 * (l s).parsed.length + 4 := by
  have hcost : loopSteps s evs + (TunnelLink.start t s).progress ≤ (l s).progress := by
    refine run_cost (I := fun _ => True) (μ := fun m => (m s).progress)
      (fun m ev m' _ hstep => ⟨trivial, ?_⟩) trivial hrun
    rcases TunnelLink.step_cases hstep s with ⟨hev, hs, -⟩ | ⟨hev, -, hs⟩
    · rw [if_pos hev]
      exact step_progress hs
    · rw [if_neg (by rw [hev]; exact Side.other_ne s), hs, Nat.zero_add]
  have hstart : (TunnelLink.start t s).progress = 1 := rfl
  have hend : (l s).progress ≤ 4 * (l s).parsed.length + 5 := by
    unfold TunnelEnd.progress
    split <;> omega
  omega

/-! ## Delivery -/

/-- The loop waits for bytes. -/
def TunnelEnd.Waiting (e : TunnelEnd) : Prop :=
  e.loop = .readLen ∧ e.inbox.length < 4 ∨ ∃ n, e.loop = .readFrame n ∧ e.inbox.length < n

/-- **A loop that waits has parsed every frame that has arrived.** -/
theorem Faithful.parsed_of_waiting {f g : StreamFramer} {a b : TunnelEnd} (h : Faithful P f g a b)
    (hwait : b.Waiting) {j : ℕ} (hj : j ≤ a.framed.length)
    (harr : (a.frames.take j).flatten <+: b.arrived) : j ≤ b.parsed.length := by
  by_contra hlt
  obtain ⟨s, hs⟩ : ∃ s, a.framed[b.parsed.length]? = some s :=
    ⟨_, List.getElem?_eq_getElem (by omega)⟩
  have hgen := genuine_length (h.sends.genuine _ s hs)
  have hframe : (a.frames.take b.parsed.length).flatten ++ s.frame <+: b.arrived := by
    have hnext : a.frames[b.parsed.length]? = some s.frame := by simp [TunnelEnd.frames, hs]
    rw [← take_succ_flatten hnext]
    exact (take_flatten_isPrefix a.frames (by omega)).trans harr
  -- the rest of the next frame would be in the inbox
  rcases hwait with ⟨hloop, hshort⟩ | ⟨n, hloop, hshort⟩
  · cases h.position (by simp [hloop, RecvLoop.Running]) with
    | inside n s' hloop' => simp [hloop] at hloop'
    | between _ harrived =>
      rw [harrived, List.prefix_append_right_inj] at hframe
      have hle := hframe.length_le
      omega
  · cases h.position (by simp [hloop, RecvLoop.Running]) with
    | between hloop' => simp [hloop, RecvLoop.lensRead] at hloop'
    | inside n' s' hloop' hs' hn harrived =>
      obtain rfl : s = s' := by simpa [hs] using hs'
      obtain rfl : n = n' := by simpa [hloop] using hloop'
      rw [harrived, List.append_assoc, List.prefix_append_right_inj] at hframe
      have hle := hframe.length_le
      rw [List.length_append, List.length_take] at hle
      omega

/-- **Delivery.** Let two fresh tunnels share their keys, and let the bytes that arrive at one end be
always an initial part of what the other end has put on its connection, cut into pieces in any way;
the sender writes nothing after a failed write. Then the loop rejects no frame and takes a bounded
number of steps, and what the consumer gets are DATA payloads in order; as long as no `Close` drains
the channel, it takes an initial part of them. When the loop waits for bytes, every DATA packet whose
frame has arrived is in the channel or has been taken. -/
theorem delivery_complete (hP : P.AEADLawful) (t : Side → Tunnel) (s : Side)
    (hm : Matches (t s).framer (t s.other).framer) (hhc : (t s).framer.headerCfg.Decodable)
    (hpad : (t s).framer.paddingCfg.NonNegative) (evs : List (Side × TunnelEvent)) (l : TunnelLink)
    (hrun : run (TunnelLink.step P) (TunnelLink.start t) evs = some l)
    (hnet : Along (TunnelLink.step P) (fun m ev => ∀ bytes, ev = (s.other, .arrive bytes) →
      (m s.other).arrived ++ bytes <+: wireOf (m s).attempts) (TunnelLink.start t) evs)
    (hquiet : Quiet (l s).attempts) :
    (l s.other).loop.Clean ∧
    loopSteps s.other evs ≤ 4 * (l s).framed.length + 4 ∧
    (l s.other).returned.Sublist (dataOf ((l s).framed.map Framed.packet)) ∧
    ((s.other, .drain) ∉ evs →
      (l s.other).taken.map Prod.snd <+: dataOf ((l s).framed.map Framed.packet)) ∧
    ∀ j ≤ (l s).framed.length, ((l s).frames.take j).flatten <+: (l s.other).arrived →
      (l s.other).Waiting →
      dataOf (((l s).framed.take j).map Framed.packet) <+:
        (l s.other).taken.map Prod.snd ++ (l s.other).dataIn := by
  have h0 : Faithful P (t s).framer (t s.other).framer (TunnelLink.start t s)
      (TunnelLink.start t s.other) :=
    ⟨⟨sends_init (t s), receives_init (t s.other), List.prefix_rfl⟩, List.prefix_rfl, trivial,
      fun _ => .between rfl rfl⟩
  -- the sender is quiet all along, since its calls are only added
  have hq : Along (TunnelLink.step P) (fun m _ => (m s).attempts <+: (l s).attempts)
      (TunnelLink.start t) evs :=
    along_rel (R := fun m m' => (m s).attempts <+: (m' s).attempts) (fun _ => List.prefix_rfl)
      (fun _ _ _ => List.IsPrefix.trans) (fun _ _ _ hstep => attempts_step hstep s) hrun
  have h : Faithful P (t s).framer (t s.other).framer (l s) (l s.other) :=
    run_inv (I := fun m => Faithful P (t s).framer (t s.other).framer (m s) (m s.other))
      (fun _ _ _ hI hC hstep => hI.step hP hm hhc hpad (hquiet.sublist hC.2.sublist) hC.1 hstep) h0
      (hnet.and hq) hrun
  refine ⟨h.clean, ?_, h.toLoyal.returned, fun hev => ?_, fun j hj harr hwait => ?_⟩
  · have hsteps := loopSteps_le hrun s.other
    have hparsed := h.toLoyal.length_parsed
    omega
  · rw [takenOf_run hrun hev]
    exact h.toLoyal.removed
  · have hrunning : (l s.other).loop.Running := by
      rcases hwait with ⟨hloop, -⟩ | ⟨n, hloop, -⟩ <;> simp [hloop, RecvLoop.Running]
    have hpending : (l s.other).loop.pending = [] := by
      rcases hwait with ⟨hloop, -⟩ | ⟨n, hloop, -⟩ <;> simp [hloop, RecvLoop.pending]
    have hhanded := h.receives.handed_eq hrunning
    rw [hpending, List.append_nil] at hhanded
    rw [TunnelEnd.taken, takenOf_undrained (h.receives.undrained hrunning), h.receives.removed,
      hhanded]
    refine dataOf_isPrefix ?_
    rw [List.map_take]
    obtain ⟨rest, hrest⟩ := h.parsed
    rw [← hrest, List.take_append_of_le_length (h.parsed_of_waiting hwait hj harr)]
    exact List.take_prefix _ _

section Samples

/-- Two frames that arrive in two pieces, cut inside the first length. -/
def sampleDelivery : List (Side × TunnelEvent) :=
  [(.left, .write .data [1, 2] ⟨0, 0, 0, fun _ => 0⟩ 0 []), (.right, .round 0),
    (.left, .write .data [3] ⟨0, 0, 0, fun _ => 0⟩ 0 []),
    (.right, .arrive (sampleWire.take 3)), (.right, .arrive (sampleWire.drop 3)),
    (.right, .read fun _ => 0), (.right, .read fun _ => 0), (.right, .offer), (.right, .round 0),
    (.right, .recv none), (.right, .read fun _ => 0), (.right, .read fun _ => 0), (.right, .offer),
    (.right, .round 0)]

/-- What arrives on the right has been written on the left. -/
def carried (m : TunnelLink) : Side × TunnelEvent → Bool
  | (.right, .arrive bytes) => ((m .right).arrived ++ bytes).isPrefixOf (wireOf (m .left).attempts)
  | _ => true

def sampleDelivered : TunnelLink :=
  last (TunnelLink.step .sample) (TunnelLink.start sampleEnds) sampleDelivery

theorem delivery_sample :
    dataOf (((sampleDelivered .left).framed.take 2).map Framed.packet) = [[1, 2], [3]] ∧
    dataOf (((sampleDelivered .left).framed.take 2).map Framed.packet) <+:
      (sampleDelivered .right).taken.map Prod.snd ++ (sampleDelivered .right).dataIn := by
  have hcarried : Along (TunnelLink.step .sample) (fun m ev => carried m ev = true)
      (TunnelLink.start sampleEnds) sampleDelivery := by
    decide +kernel
  refine ⟨by decide +kernel, ?_⟩
  refine (delivery_complete sample_lawful.toAEADLawful sampleEnds .left ⟨⟨rfl, rfl, rfl, rfl⟩, rfl⟩
    defaultHeaderConfig_decodable (by unfold PaddingConfig.NonNegative; decide) sampleDelivery
    sampleDelivered (run_eq_last (by decide +kernel)) ?_ ?_).2.2.2.2 2 (by decide +kernel)
    (by decide +kernel) (.inl ?_)
  · refine hcarried.mono ?_
    rintro m - hc bytes rfl
    exact List.isPrefixOf_iff_prefix.mp hc
  · unfold Quiet
    decide +kernel
  · decide +kernel

end Samples

end ObsidianVPN.Protocol
