import ObsidianVPN.Lib.Runs
import ObsidianVPN.Udp.Endpoints

/-!
# `RatchetEpoch` in steps

`RatchetEpoch` replaces the keys in two sections: the sending keys and the tag under `sendMu`, the
receiving keys under `recvMu`. Between the two, an end has the sending keys of one epoch and the
receiving keys of the epoch before.

* `KeyFields.At`: the key fields of an end with the sending keys of epoch `c` and the receiving keys
  of epoch `d`; `At.ratchetSend`, `At.ratchetRecv`: what a section does;
* `ChannelState.step`: the client, with each section of a mutex as one step;
* **`ChannelState.coherent_iff`**: a step of the client seals or opens with the keys of one epoch,
  unless `Recv` is between the two sections of `RatchetEpoch`.

The keys of epoch `e` are `K e`, if there is such an epoch.
-/

namespace ObsidianVPN.Udp

open ByteStr

/-! ## The sections -/

/-- What `RatchetEpoch` carries from its first section to its second. -/
structure Ratchet where
  keys : UDPKeys
  oldHp : Bytes
  oldTag : Tag

/-- The section under `sendMu`. -/
def UDPChannel.ratchetSend (ch : UDPChannel) (keys : UDPKeys) : UDPChannel × Ratchet :=
  ({ ch with encAEAD := keys.sendKey, hp := keys.headerKey, tag := keys.sessionTag },
    ⟨keys, ch.hp, ch.tag⟩)

/-- The section under `recvMu`. -/
def UDPChannel.ratchetRecv (ch : UDPChannel) (k : Ratchet) : UDPChannel :=
  { ch with
    prevDecAEAD := some ch.decAEAD
    decAEAD := k.keys.recvKey
    prevHp := some k.oldHp
    prevTag := k.oldTag }

@[inherit_doc UDPChannel.ratchetSend]
def UDPSession.ratchetSend (s : UDPSession) (keys : UDPKeys) : UDPSession × Ratchet :=
  ({ s with encAEAD := keys.sendKey, hp := keys.headerKey, tag := keys.sessionTag },
    ⟨keys, s.hp, s.tag⟩)

@[inherit_doc UDPChannel.ratchetRecv]
def UDPSession.ratchetRecv (s : UDPSession) (k : Ratchet) : UDPSession :=
  { s with
    prevDecAEAD := some s.decAEAD
    decAEAD := k.keys.recvKey
    prevHp := some k.oldHp
    prevTag := k.oldTag }

/-- The two sections in a row are the ratchet of the client. -/
theorem UDPChannel.ratchetEpoch_eq_sections (ch : UDPChannel) (keys : UDPKeys) :
    ch.ratchetEpoch keys = (ch.ratchetSend keys).1.ratchetRecv (ch.ratchetSend keys).2 := rfl

/-- The two sections in a row are the ratchet of a session. -/
theorem UDPSession.ratchet_eq_sections (s : UDPSession) (keys : UDPKeys) :
    s.ratchet keys = (s.ratchetSend keys).1.ratchetRecv (s.ratchetSend keys).2 := rfl

/-- The key fields that the two ends have in common. -/
structure KeyFields where
  encAEAD : Bytes
  decAEAD : Bytes
  prevDecAEAD : Option Bytes
  hp : Bytes
  prevHp : Option Bytes
  tag : Tag
  prevTag : Tag

def UDPChannel.keyFields (ch : UDPChannel) : KeyFields :=
  ⟨ch.encAEAD, ch.decAEAD, ch.prevDecAEAD, ch.hp, ch.prevHp, ch.tag, ch.prevTag⟩

def UDPSession.keyFields (s : UDPSession) : KeyFields :=
  ⟨s.encAEAD, s.decAEAD, s.prevDecAEAD, s.hp, s.prevHp, s.tag, s.prevTag⟩

/-- What a datagram is sealed with. -/
structure Seal where
  tag : Tag
  enc : Bytes
  hp : Bytes
  deriving DecidableEq

/-! ## Epochs -/

/-- Tags and keys of different epochs are distinct. -/
structure DistinctKeys {ι : Type*} (K : ι → Option UDPKeys) : Prop where
  tag : ∀ {a b x y}, K a = some x → K b = some y → x.sessionTag = y.sessionTag → a = b
  send : ∀ {a b x y}, K a = some x → K b = some y → x.sendKey = y.sendKey → a = b
  recv : ∀ {a b x y}, K a = some x → K b = some y → x.recvKey = y.recvKey → a = b
  header : ∀ {a b x y}, K a = some x → K b = some y → x.headerKey = y.headerKey → a = b

/-- The tag and both keys are those of one epoch. -/
def Seal.OfEpoch (K : ℕ → Option UDPKeys) (s : Seal) : Prop :=
  ∃ e keys, K e = some keys ∧ s = ⟨keys.sessionTag, keys.sendKey, keys.headerKey⟩

/-- The sending keys are those of epoch `c`, the receiving keys those of epoch `d`. -/
structure KeyFields.At (K : ℕ → Option UDPKeys) (c d : ℕ) (f : KeyFields) : Prop where
  send : ∃ keys, K c = some keys ∧ f.encAEAD = keys.sendKey ∧ f.hp = keys.headerKey ∧
    f.tag = keys.sessionTag
  recv : ∃ keys, K d = some keys ∧ f.decAEAD = keys.recvKey
  prev : (d = 0 ∧ f.prevDecAEAD = none ∧ f.prevHp = none) ∨
    ∃ q old, d = q + 1 ∧ K q = some old ∧ f.prevDecAEAD = some old.recvKey ∧
      f.prevHp = some old.headerKey ∧ f.prevTag = old.sessionTag

/-- The ratchet is the one from epoch `q` to epoch `q + 1`. -/
def Ratchet.From (K : ℕ → Option UDPKeys) (q : ℕ) (k : Ratchet) : Prop :=
  K (q + 1) = some k.keys ∧
    ∃ old, K q = some old ∧ k.oldHp = old.headerKey ∧ k.oldTag = old.sessionTag

section KeyFields

variable {K : ℕ → Option UDPKeys} {c d e : ℕ} {f : KeyFields} {keys : UDPKeys}

theorem KeyFields.At.ratchetSend (h : f.At K c c) (hnext : K (c + 1) = some keys) :
    ({ f with encAEAD := keys.sendKey, hp := keys.headerKey, tag := keys.sessionTag } :
      KeyFields).At K (c + 1) c ∧ (⟨keys, f.hp, f.tag⟩ : Ratchet).From K c := by
  obtain ⟨old, hold, -, hhp, htag⟩ := h.send
  exact ⟨⟨⟨keys, hnext, rfl, rfl, rfl⟩, h.recv, h.prev⟩, hnext, old, hold, hhp, htag⟩

theorem KeyFields.At.ratchetRecv (h : f.At K (c + 1) c) {k : Ratchet} (hk : k.From K c) :
    ({ f with
        prevDecAEAD := some f.decAEAD
        decAEAD := k.keys.recvKey
        prevHp := some k.oldHp
        prevTag := k.oldTag } : KeyFields).At K (c + 1) (c + 1) := by
  obtain ⟨hnext, old, hold, hhp, htag⟩ := hk
  obtain ⟨old', hold', hdec⟩ := h.recv
  obtain rfl := Option.some.inj (hold.symm.trans hold')
  exact ⟨h.send, ⟨k.keys, hnext, rfl⟩, .inr ⟨c, old, rfl, hold, by rw [hdec], by rw [hhp], htag⟩⟩

theorem KeyFields.At.tag_iff (hK : DistinctKeys K) (h : f.At K c d) (he : K e = some keys) :
    f.tag = keys.sessionTag ↔ c = e := by
  obtain ⟨cur, hcur, -, -, htag⟩ := h.send
  rw [htag]
  constructor
  · exact hK.tag hcur he
  · rintro rfl
    rw [Option.some.inj (hcur.symm.trans he)]

theorem KeyFields.At.prevTag_iff (hK : DistinctKeys K) (h : f.At K c d) (he : K e = some keys)
    (hd : 0 < d) : f.prevTag = keys.sessionTag ↔ d = e + 1 := by
  rcases h.prev with ⟨rfl, -, -⟩ | ⟨q, old, rfl, hold, -, -, htag⟩
  · exact absurd hd (lt_irrefl 0)
  · rw [htag]
    constructor
    · intro heq
      rw [hK.tag hold he heq]
    · intro hqe
      obtain rfl : q = e := by omega
      rw [Option.some.inj (hold.symm.trans he)]

/-- The current keys are those of epoch `e` exactly when both sections of its ratchet, and no
other, are done. -/
theorem KeyFields.At.current_iff (hK : DistinctKeys K) (h : f.At K c d) (he : K e = some keys) :
    f.decAEAD = keys.recvKey ∧ f.hp = keys.headerKey ↔ c = e ∧ d = e := by
  obtain ⟨cur, hcur, -, hhp, -⟩ := h.send
  obtain ⟨cur', hcur', hdec⟩ := h.recv
  rw [hdec, hhp]
  constructor
  · exact fun ⟨h1, h2⟩ => ⟨hK.header hcur he h2, hK.recv hcur' he h1⟩
  · rintro ⟨rfl, rfl⟩
    rw [Option.some.inj (hcur.symm.trans he), Option.some.inj (hcur'.symm.trans he)]
    exact ⟨rfl, rfl⟩

/-- The previous keys are those of epoch `e` exactly when the second section of the next ratchet
was the last one. -/
theorem KeyFields.At.previous_iff (hK : DistinctKeys K) (h : f.At K c d) (he : K e = some keys)
    (hd : 0 < d) :
    f.prevDecAEAD = some keys.recvKey ∧ f.prevHp = some keys.headerKey ↔ d = e + 1 := by
  rcases h.prev with ⟨rfl, -, -⟩ | ⟨q, old, rfl, hold, hdec, hhp, -⟩
  · exact absurd hd (lt_irrefl 0)
  · rw [hdec, hhp]
    constructor
    · intro heq
      rw [hK.recv hold he (Option.some.inj heq.1)]
    · intro hqe
      obtain rfl : q = e := by omega
      rw [Option.some.inj (hold.symm.trans he)]
      exact ⟨rfl, rfl⟩

/-- The sending keys belong to one epoch, whatever the receiving keys are. -/
theorem KeyFields.At.ofEpoch (h : f.At K c d) : Seal.OfEpoch K ⟨f.tag, f.encAEAD, f.hp⟩ := by
  obtain ⟨keys, hc, henc, hhp, htag⟩ := h.send
  exact ⟨c, keys, hc, by rw [henc, hhp, htag]⟩

end KeyFields

/-! ## The client -/

/-- The client while `RatchetEpoch` is called. -/
structure ChannelState where
  ch : UDPChannel
  /-- The call of `RatchetEpoch` that is between its two sections. -/
  ratchet : Option Ratchet
  /-- The number of first sections so far. -/
  epoch : ℕ

/-- The steps of the client: the two sections of `RatchetEpoch`, a call of `Send`, which holds
`sendMu` from its first read to its write, and the section of `Recv`. -/
inductive ChannelAct where
  | ratchetSend
  | ratchetRecv
  | send (payload : Bytes) (poolCap : ℕ) (draws : SendDraws)
  | recv (datagram : Bytes)

def ChannelState.start (keys : UDPKeys) : ChannelState := ⟨newUDPChannel keys, none, 0⟩

section Channel

variable (U : UDPCiphers) (K : ℕ → Option UDPKeys)

/-- A step; one that cannot be taken changes nothing. The section of `Recv` only reads. -/
def ChannelState.step (st : ChannelState) : ChannelAct → ChannelState
  | .ratchetSend =>
    match st.ratchet, K (st.epoch + 1) with
    | none, some keys =>
      ⟨(st.ch.ratchetSend keys).1, some (st.ch.ratchetSend keys).2, st.epoch + 1⟩
    | _, _ => st
  | .ratchetRecv =>
    match st.ratchet with
    | some k => ⟨st.ch.ratchetRecv k, none, st.epoch⟩
    | none => st
  | .send payload poolCap draws => { st with ch := (st.ch.send U payload poolCap draws).2 }
  | .recv _ => st

/-- The client after a run. -/
def ChannelState.run (st : ChannelState) (acts : List ChannelAct) : ChannelState :=
  acts.foldl (ChannelState.step U K) st

/-- The number of second sections so far. -/
def ChannelState.recvEpoch (st : ChannelState) : ℕ :=
  if st.ratchet.isSome then st.epoch - 1 else st.epoch

/-- The tag of epoch `e` is the current or the previous one, before or after the ratchet that is
under way. -/
def ChannelState.Expects (st : ChannelState) (e : ℕ) : Prop :=
  st.recvEpoch ≤ e + 1 ∧ e ≤ st.epoch

/-- What the step seals is sealed with the tag and the keys of one epoch; a datagram with a tag of
the end is opened with the keys of its epoch. -/
def ChannelState.Coherent (st : ChannelState) : ChannelAct → Prop
  | .send _ _ _ => Seal.OfEpoch K ⟨st.ch.tag, st.ch.encAEAD, st.ch.hp⟩
  | .recv datagram => ∀ packet e keys, packetData datagram = some packet → K e = some keys →
      Tag.read packet = keys.sessionTag → st.Expects e →
      st.ch.recvKeys (Tag.read packet) = some (keys.recvKey, keys.headerKey)
  | _ => True

/-- `Recv` is not between the two sections of `RatchetEpoch`, unless the tag is the one that was
the previous one before. -/
def ChannelState.InStep (st : ChannelState) : ChannelAct → Prop
  | .recv datagram => ∀ packet e keys, packetData datagram = some packet → K e = some keys →
      Tag.read packet = keys.sessionTag → st.Expects e →
      st.ratchet = none ∨ st.epoch = e + 2
  | _ => True

end Channel

section ChannelRun

variable {U : UDPCiphers} {K : ℕ → Option UDPKeys}

/-- The invariant of the client. -/
structure ChannelState.Inv (K : ℕ → Option UDPKeys) (st : ChannelState) : Prop where
  fields : st.ch.keyFields.At K st.epoch st.recvEpoch
  ratchet : ∀ k, st.ratchet = some k → ∃ q, st.epoch = q + 1 ∧ k.From K q

theorem ChannelState.inv_start {keys : UDPKeys} (h0 : K 0 = some keys) :
    (ChannelState.start keys).Inv K where
  fields := ⟨⟨keys, h0, rfl, rfl, rfl⟩, ⟨keys, h0, rfl⟩, .inl ⟨rfl, rfl, rfl⟩⟩
  ratchet := by rintro k ⟨⟩

theorem ChannelState.Inv.step {st : ChannelState} (h : st.Inv K) (act : ChannelAct) :
    (st.step U K act).Inv K := by
  obtain ⟨ch, ratchet, epoch⟩ := st
  cases act with
  | ratchetSend =>
    cases ratchet with
    | some k => exact h
    | none =>
      cases hnext : K (epoch + 1) with
      | none => simpa only [ChannelState.step, hnext] using h
      | some keys =>
        simp only [ChannelState.step, hnext]
        have hfields : ch.keyFields.At K epoch epoch := h.fields
        refine ⟨(hfields.ratchetSend hnext).1, ?_⟩
        rintro k ⟨⟩
        exact ⟨epoch, rfl, (hfields.ratchetSend hnext).2⟩
  | ratchetRecv =>
    cases ratchet with
    | none => exact h
    | some k =>
      obtain ⟨q, rfl, hk⟩ := h.ratchet k rfl
      have hfields : ch.keyFields.At K (q + 1) q := h.fields
      exact ⟨hfields.ratchetRecv hk, by rintro k ⟨⟩⟩
  | send payload poolCap draws => exact ⟨h.fields, h.ratchet⟩
  | recv datagram => exact h

theorem ChannelState.Inv.run {st : ChannelState} (h : st.Inv K) (acts : List ChannelAct) :
    (st.run U K acts).Inv K := by
  induction acts generalizing st with
  | nil => exact h
  | cons act acts ih => exact ih (h.step act)

/-- The keys that `Recv` picks, in terms of the sections done so far. -/
theorem UDPChannel.recvKeys_eq_some_iff (hK : DistinctKeys K) {ch : UDPChannel} {c d e : ℕ}
    (h : ch.keyFields.At K c d) {keys : UDPKeys} (he : K e = some keys) :
    ch.recvKeys keys.sessionTag = some (keys.recvKey, keys.headerKey) ↔
      (c = e ∧ d = e) ∨ (c ≠ e ∧ d = e + 1) := by
  have htag : ch.tag = keys.sessionTag ↔ c = e := h.tag_iff hK he
  unfold UDPChannel.recvKeys
  by_cases hc : c = e
  · rw [if_pos (htag.mpr hc).symm, Option.some.injEq, Prod.mk.injEq]
    have hcur : ch.decAEAD = keys.recvKey ∧ ch.hp = keys.headerKey ↔ c = e ∧ d = e :=
      h.current_iff hK he
    rw [hcur]
    simp [hc]
  · rw [if_neg fun heq => hc (htag.mp heq.symm)]
    have hprev := h.prev
    rcases hprev with ⟨rfl, hnone, -⟩ | ⟨q, old, rfl, hold, hdec, hhp, htag'⟩
    · simp only [show ch.prevDecAEAD = none from hnone]
      simp [hc]
    · simp only [show ch.prevDecAEAD = some old.recvKey from hdec,
        show ch.prevHp = some old.headerKey from hhp, Option.getD_some]
      have hq : ch.prevTag = keys.sessionTag ↔ q + 1 = e + 1 :=
        h.prevTag_iff hK he (Nat.succ_pos q)
      by_cases hqe : q = e
      · subst hqe
        rw [Option.some.inj (hold.symm.trans he)]
        rw [if_pos (hq.mpr rfl).symm]
        simp [hc]
      · rw [if_neg fun heq => hqe (Nat.succ.inj (hq.mp heq.symm))]
        simp [hc, hqe]

/-- **A step of the client is coherent exactly when it is in step with `RatchetEpoch`.** -/
theorem ChannelState.coherent_iff (hK : DistinctKeys K) {st : ChannelState} (h : st.Inv K)
    (act : ChannelAct) : st.Coherent K act ↔ st.InStep K act := by
  obtain ⟨ch, ratchet, epoch⟩ := st
  cases act with
  | ratchetSend => exact Iff.rfl
  | ratchetRecv => exact Iff.rfl
  | send payload poolCap draws => exact iff_true_intro h.fields.ofEpoch
  | recv datagram =>
    refine forall₃_congr fun packet e keys => forall₂_congr fun _ he => ?_
    refine forall₂_congr fun htag hexp => ?_
    rw [htag, UDPChannel.recvKeys_eq_some_iff hK h.fields he]
    obtain ⟨hlow, hhigh⟩ := hexp
    change e ≤ epoch at hhigh
    cases ratchet with
    | none =>
      simp only [ChannelState.recvEpoch, Option.isSome_none, Bool.false_eq_true, if_false] at hlow ⊢
      simp only [true_or, iff_true]
      omega
    | some k =>
      -- between the sections only the tag that was the previous one before finds its keys
      obtain ⟨q, rfl, -⟩ := h.ratchet k rfl
      simp only [ChannelState.recvEpoch, Option.isSome_some, if_true, reduceCtorEq,
        false_or] at hlow ⊢
      omega

end ChannelRun

end ObsidianVPN.Udp
