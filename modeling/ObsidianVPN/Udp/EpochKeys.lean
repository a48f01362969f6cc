import ObsidianVPN.Udp.RoundTrip
import ObsidianVPN.Udp.Isolation

/-!
# Epochs of keys

Both ends of a session go through the same list of epoch keys; the server has them with the two
directions swapped. An end in epoch `r` holds the receive keys of the epochs `r` and `r - 1`.

* `InEpoch`: the key fields of an end in epoch `r`; `UDPChannel.InEpoch`, `UDPSession.InEpoch`;
* `UDPMux.Holds`: the session `i` of a multiplexer is in epoch `r`, and the other sessions do not
  use its tags; `Holds.ratchetEpoch`, `Holds.foreign`: the operations keep this;
* **`UDPChannel.InEpoch.openDatagram`**, **`UDPMux.Holds.openDatagram`**: an end in epoch `r` opens
  the datagrams of the epochs `r` and `r - 1`, with the keys of their epoch, and no others.
-/

namespace ObsidianVPN.Udp

open ByteStr

/-! ## The key fields -/

/-- The key fields of an end in epoch `r`. -/
def InEpoch (E : List UDPKeys) (r : ℕ) (enc dec : Bytes) (prevDec : Option Bytes) (hp : Bytes)
    (prevHp : Option Bytes) (tag prevTag : Tag) : Prop :=
  ∃ cur, E[r]? = some cur ∧ enc = cur.sendKey ∧ dec = cur.recvKey ∧ hp = cur.headerKey ∧
    tag = cur.sessionTag ∧
    ((r = 0 ∧ prevDec = none) ∨
      ∃ q old, r = q + 1 ∧ E[q]? = some old ∧ prevDec = some old.recvKey ∧
        prevHp = some old.headerKey ∧ prevTag = old.sessionTag)

theorem InEpoch.ratchet {E : List UDPKeys} {r : ℕ} {enc dec : Bytes} {prevDec : Option Bytes}
    {hp : Bytes} {prevHp : Option Bytes} {tag prevTag : Tag}
    (h : InEpoch E r enc dec prevDec hp prevHp tag prevTag) {next : UDPKeys}
    (hnext : E[r + 1]? = some next) :
    InEpoch E (r + 1) next.sendKey next.recvKey (some dec) next.headerKey (some hp)
      next.sessionTag tag := by
  obtain ⟨cur, hcur, -, rfl, rfl, rfl, -⟩ := h
  exact ⟨next, hnext, rfl, rfl, rfl, rfl, .inr ⟨r, cur, rfl, hcur, rfl, rfl, rfl⟩⟩

def UDPChannel.InEpoch (E : List UDPKeys) (r : ℕ) (ch : UDPChannel) : Prop :=
  Udp.InEpoch E r ch.encAEAD ch.decAEAD ch.prevDecAEAD ch.hp ch.prevHp ch.tag ch.prevTag

def UDPSession.InEpoch (E : List UDPKeys) (r : ℕ) (s : UDPSession) : Prop :=
  Udp.InEpoch E r s.encAEAD s.decAEAD s.prevDecAEAD s.hp s.prevHp s.tag s.prevTag

/-- The tags of the epochs. -/
def epochTags (E : List UDPKeys) : List Tag := E.map UDPKeys.sessionTag

theorem mem_epochTags {E : List UDPKeys} {e : ℕ} {keys : UDPKeys} (h : E[e]? = some keys) :
    keys.sessionTag ∈ epochTags E :=
  List.mem_map_of_mem (List.mem_of_getElem? h)

/-- With distinct tags a tag belongs to one epoch. -/
theorem epoch_eq_iff {E : List UDPKeys} (hE : (epochTags E).Nodup) {e e' : ℕ}
    {keys keys' : UDPKeys} (h : E[e]? = some keys) (h' : E[e']? = some keys') :
    keys.sessionTag = keys'.sessionTag ↔ e = e' := by
  constructor
  · intro htag
    have hget : (epochTags E)[e]? = some keys.sessionTag := by simp [epochTags, h]
    have hget' : (epochTags E)[e']? = some keys.sessionTag := by simp [epochTags, h', htag]
    have hlt : e < (epochTags E).length := (List.getElem?_eq_some_iff.mp hget).1
    exact (List.getElem?_inj hlt hE).mp (hget.trans hget'.symm)
  · rintro rfl
    rw [h] at h'
    rw [Option.some.inj h']

/-- The server's keys of an epoch are those of the client, swapped. -/
theorem getElem?_swap {E : List UDPKeys} {e : ℕ} {keys : UDPKeys}
    (h : (E.map UDPKeys.swap)[e]? = some keys) : ∃ keys', E[e]? = some keys' ∧ keys'.swap = keys := by
  rw [List.getElem?_map] at h
  exact Option.map_eq_some_iff.mp h

/-- `Open` fails under the client's key of another epoch. -/
def IdealAcross (U : UDPCiphers) (E : List UDPKeys) : Prop :=
  ∀ (e e' : ℕ) (keys keys' : UDPKeys), E[e]? = some keys → E[e']? = some keys' → e ≠ e' →
    ∀ n n' p a a', U.aeadOpen keys'.sendKey n' (U.aeadSeal keys.sendKey n p a) a' = none

/-! ## The client -/

section Client

variable {U : UDPCiphers} {E : List UDPKeys} {r : ℕ} {ch : UDPChannel}

theorem UDPChannel.InEpoch.ratchetEpoch (h : ch.InEpoch E r) {next : UDPKeys}
    (hnext : E[r + 1]? = some next) : (ch.ratchetEpoch next).InEpoch E (r + 1) :=
  Udp.InEpoch.ratchet h hnext

/-- The keys of the current and the previous epoch are found by their tags. -/
theorem UDPChannel.InEpoch.recvKeys (h : ch.InEpoch E r) (hE : (epochTags E).Nodup) {e : ℕ}
    {keys : UDPKeys} (he : E[e]? = some keys) :
    ch.recvKeys keys.sessionTag =
      if r = e ∨ r = e + 1 then some (keys.recvKey, keys.headerKey) else none := by
  obtain ⟨cur, hcur, -, hdec, hhp, htag, hprev⟩ := h
  have hiff := epoch_eq_iff hE he hcur
  unfold UDPChannel.recvKeys
  rw [htag]
  by_cases her : e = r
  · subst her
    rw [he] at hcur
    obtain rfl := Option.some.inj hcur
    simp [hdec, hhp]
  · rw [if_neg (hiff.not.mpr her)]
    rcases hprev with ⟨rfl, hnone⟩ | ⟨q, old, rfl, hq, hdec', hhp', htag'⟩
    · rw [hnone, if_neg (by omega)]
    · rw [hdec', hhp', htag']
      have hiff' := epoch_eq_iff hE he hq
      by_cases heq : e = q
      · subst heq
        rw [he] at hq
        obtain rfl := Option.some.inj hq
        simp
      · simp only [hiff'.not.mpr heq, if_false]
        rw [if_neg (by omega)]

/-- **The client opens the datagrams of its current and its previous epoch.** -/
theorem UDPChannel.InEpoch.openDatagram (hU : U.AEADLawful) (h : ch.InEpoch E r)
    (hE : (epochTags E).Nodup) {e : ℕ} {keys : UDPKeys} (he : E[e]? = some keys) {ctr : ℕ}
    (hctr : ctr < 2 ^ 64) {plain d : Bytes} (hd : packetData d =
      some (sealPacket U keys.recvKey keys.headerKey keys.sessionTag ctr plain)) :
    ch.openDatagram U d = if r = e ∨ r = e + 1 then some (ctr, plain) else none := by
  simp only [UDPChannel.openDatagram, hd, Option.bind_eq_bind, Option.bind_some, read_sealPacket,
    h.recvKeys hE he]
  split
  · simp only [Option.bind_some]
    exact openPacket_sealPacket hU keys.recvKey keys.headerKey keys.sessionTag hctr plain
  · rfl

end Client

/-! ## The server -/

/-- The session does not use the tags. -/
def UDPSession.Avoids (tags : List Tag) (s : UDPSession) : Prop :=
  s.tag ∉ tags ∧ (s.prevDecAEAD.isSome = true ∨ s.prevTag ≠ .zero → s.prevTag ∉ tags)

/-- The session `i` is in epoch `r`, and the other sessions do not use its tags. -/
structure UDPMux.Holds (E : List UDPKeys) (i r : ℕ) (m : UDPMux) : Prop where
  session : ∃ s, m.sessions[i]? = some s ∧ s.InEpoch (E.map UDPKeys.swap) r
  known : ∀ e keys, E[e]? = some keys →
    m.table.get keys.sessionTag = if e ≤ r then some i else none
  others : ∀ j s, j ≠ i → m.sessions[j]? = some s → s.Avoids (epochTags E)

/-- No session uses the tags. -/
structure UDPMux.Clear (tags : List Tag) (m : UDPMux) : Prop where
  table : ∀ t ∈ tags, m.table.get t = none
  sessions : ∀ s ∈ m.sessions, s.Avoids tags

/-- An operation on the other sessions, which does not use the tags of the epochs. A datagram may
have any tag: it only changes the most recently used session. -/
def Op.Foreign (tags : List Tag) (i : ℕ) : Op → Prop
  | .register keys => keys.sessionTag ∉ tags
  | .ratchet j keys => j ≠ i ∧ keys.sessionTag ∉ tags
  | .close j => j ≠ i
  | .datagram _ => True

section Server

variable {U : UDPCiphers} {E : List UDPKeys} {i r : ℕ} {m : UDPMux}

theorem UDPMux.Clear.registerSession (h : m.Clear (epochTags E)) (hE : (epochTags E).Nodup)
    {keys : UDPKeys} (h0 : E[0]? = some keys) :
    (m.registerSession keys.swap).Holds E m.sessions.length 0 where
  session := by
    refine ⟨newUDPSession keys.swap, List.getElem?_concat_length, keys.swap, ?_, rfl, rfl, rfl, rfl,
      .inl ⟨rfl, rfl⟩⟩
    rw [List.getElem?_map, h0]
    rfl
  known e keys' he := by
    rw [get_registerSession, show keys.swap.sessionTag = keys.sessionTag from rfl,
      h.table _ (mem_epochTags he)]
    simp only [epoch_eq_iff hE he h0, Nat.le_zero]
  others j s hj hs := by
    rcases Nat.lt_or_gt_of_ne hj with hlt | hgt
    · rw [UDPMux.registerSession, List.getElem?_append_left hlt] at hs
      exact h.sessions s (List.mem_of_getElem? hs)
    · rw [UDPMux.registerSession, List.getElem?_eq_none (by simpa using hgt)] at hs
      exact absurd hs (by simp)

/-- The session's next epoch. -/
theorem UDPMux.Holds.ratchetEpoch (h : m.Holds E i r) (hE : (epochTags E).Nodup) {next : UDPKeys}
    (hnext : E[r + 1]? = some next) : (m.ratchetEpoch i next.swap).Holds E i (r + 1) := by
  obtain ⟨s, hs, hepoch⟩ := h.session
  refine ⟨⟨s.ratchet next.swap, ?_, ?_⟩, fun e keys he => ?_, fun j s' hj hs' => ?_⟩
  · exact (sessions_ratchetEpoch m hs _ i).trans (if_pos rfl)
  · refine Udp.InEpoch.ratchet hepoch ?_
    rw [List.getElem?_map, hnext]
    rfl
  · rw [get_ratchetEpoch m hs, show next.swap.sessionTag = next.sessionTag from rfl, h.known e keys he]
    simp only [epoch_eq_iff hE he hnext]
    by_cases her : e = r + 1
    · simp [her]
    · rw [if_neg her]
      simp only [show e ≤ r + 1 ↔ e ≤ r by omega]
  · rw [sessions_ratchetEpoch m hs, if_neg hj] at hs'
    exact h.others j s' hj hs'

/-- **The operations on other sessions leave the session in its epoch.** -/
theorem UDPMux.Holds.foreign (h : m.Holds E i r) {op : Op} (hop : op.Foreign (epochTags E) i) :
    (m.step op).Holds E i r := by
  obtain ⟨s, hs, hepoch⟩ := h.session
  have hi : i < m.sessions.length := (List.getElem?_eq_some_iff.mp hs).1
  cases op with
  | register keys =>
    refine ⟨⟨s, ?_, hepoch⟩, fun e keys' he => ?_, fun j s' hj hs' => ?_⟩
    · exact (List.getElem?_append_left hi).trans hs
    · have hne : keys'.sessionTag ≠ keys.sessionTag := fun heq => hop (heq ▸ mem_epochTags he)
      rw [UDPMux.step, get_registerSession, if_neg hne, h.known e keys' he]
    · by_cases hj' : j < m.sessions.length
      · exact h.others j s' hj ((List.getElem?_append_left hj').symm.trans hs')
      · have hmem := List.mem_of_getElem? ((List.getElem?_append_right (by omega)).symm.trans hs')
        rw [List.mem_singleton.mp hmem]
        exact ⟨hop, by simp [newUDPSession]⟩
  | ratchet j keys =>
    cases hsj : m.sessions[j]? with
    | none =>
      rw [UDPMux.step, ratchetEpoch_of_none m hsj]
      exact h
    | some sj =>
      have hget := sessions_ratchetEpoch m hsj keys
      refine ⟨⟨s, (hget i).trans ((if_neg (Ne.symm hop.1)).trans hs), hepoch⟩, fun e keys' he => ?_,
        fun j' s' hj' hs' => ?_⟩
      · have hne : keys'.sessionTag ≠ keys.sessionTag := fun heq => hop.2 (heq ▸ mem_epochTags he)
        rw [UDPMux.step, get_ratchetEpoch m hsj, if_neg hne, h.known e keys' he]
      · have hs' := (hget j').symm.trans hs'
        split at hs'
        · obtain rfl := Option.some.inj hs'
          exact ⟨hop.2, fun _ => (h.others j sj hop.1 hsj).1⟩
        · exact h.others j' s' hj' hs'
  | close j =>
    by_cases hopen : ∃ sj, m.sessions[j]? = some sj ∧ sj.closed = false
    · obtain ⟨sj, hsj, hc⟩ := hopen
      have hget := sessions_close m hsj hc
      have havoid := h.others j sj hop hsj
      refine ⟨⟨s, (hget i).trans ((if_neg (Ne.symm hop)).trans hs), hepoch⟩, fun e keys he => ?_,
        fun j' s' hj' hs' => ?_⟩
      · -- the closed session has none of the tags
        have hkeep : ¬sj.closes keys.sessionTag := by
          rintro (heq | ⟨heq, hz⟩)
          · exact havoid.1 (heq ▸ mem_epochTags he)
          · exact havoid.2 (.inr hz) (heq ▸ mem_epochTags he)
        rw [UDPMux.step, get_close m hsj hc, if_neg hkeep, h.known e keys he]
      · have hs' := (hget j').symm.trans hs'
        split at hs'
        · obtain rfl := Option.some.inj hs'
          exact havoid
        · exact h.others j' s' hj' hs'
    · rw [UDPMux.step, close_of_closed m fun sj hsj => by
        by_contra hc
        exact hopen ⟨sj, hsj, by simpa using hc⟩]
      exact h
  | datagram tag =>
    refine ⟨?_, ?_, ?_⟩
    · simpa only [UDPMux.step, arrive_sessions] using h.session
    · simpa only [UDPMux.step, arrive_table] using h.known
    · simpa only [UDPMux.step, arrive_sessions] using h.others

theorem UDPMux.Holds.lookedUp (h : m.Holds E i r) (datagram : Bytes) :
    (m.lookedUp datagram).Holds E i r := by
  unfold UDPMux.lookedUp
  split
  · exact h
  · rename_i packet _
    have hop : (Op.datagram (Tag.read packet)).Foreign (epochTags E) i := trivial
    exact h.foreign hop

section Tags

variable {s : UDPSession} {e : ℕ} {keys : UDPKeys}

theorem UDPSession.InEpoch.tag_iff (h : s.InEpoch (E.map UDPKeys.swap) r) (hE : (epochTags E).Nodup)
    (he : E[e]? = some keys) : s.tag = keys.sessionTag ↔ r = e := by
  obtain ⟨cur, hswap, -, -, -, htag, -⟩ := h
  obtain ⟨cur, hcur, rfl⟩ := getElem?_swap hswap
  rw [htag, show cur.swap.sessionTag = cur.sessionTag from rfl, epoch_eq_iff hE hcur he]

/-- After the first ratchet the session has the tag of the previous epoch. -/
theorem UDPSession.InEpoch.prevTag_iff (h : s.InEpoch (E.map UDPKeys.swap) r)
    (hE : (epochTags E).Nodup) (he : E[e]? = some keys) :
    (s.prevDecAEAD.isSome = true ↔ r ≠ 0) ∧
      (r ≠ 0 → (s.prevTag = keys.sessionTag ↔ r = e + 1)) := by
  obtain ⟨-, -, -, -, -, -, ⟨rfl, hnone⟩ | ⟨q, old, rfl, hswap, hsome, -, htag⟩⟩ := h
  · simp [hnone]
  · obtain ⟨old, hold, rfl⟩ := getElem?_swap hswap
    refine ⟨by simp [hsome], fun _ => ?_⟩
    rw [htag, show old.swap.sessionTag = old.sessionTag from rfl, epoch_eq_iff hE hold he]
    omega

/-- The fast path finds the session itself or nothing. -/
theorem UDPMux.Holds.mruSelect (h : m.Holds E i r) (hE : (epochTags E).Nodup)
    (he : E[e]? = some keys) :
    m.mruSelect keys.sessionTag = none ∨
      m.mruSelect keys.sessionTag = if e ≤ r then some (i, decide (r = e + 1)) else none := by
  obtain ⟨s, hs, hepoch⟩ := h.session
  obtain ⟨hsome, hprev⟩ := hepoch.prevTag_iff hE he
  unfold UDPMux.mruSelect
  cases hm : m.mruSession with
  | none => exact .inl rfl
  | some j =>
    by_cases hj : j = i
    · subst hj
      simp only [Option.bind_eq_bind, Option.bind_some, hs, hepoch.tag_iff hE he]
      by_cases hre : r = e
      · subst hre
        simp
      · rw [if_neg hre]
        by_cases hre' : r = e + 1
        · have hpos : r ≠ 0 := by omega
          simp [hsome.mpr hpos, (hprev hpos).mpr hre', hre']
        · exact .inl (if_neg fun hboth => hre' ((hprev (hsome.mp hboth.1)).mp hboth.2))
    · left
      cases hsj : m.sessions[j]? with
      | none => simp [hsj]
      | some sj =>
        have havoid := h.others j sj hj hsj
        have htag : sj.tag ≠ keys.sessionTag := fun heq => havoid.1 (heq ▸ mem_epochTags he)
        have hprev : ¬(sj.prevDecAEAD.isSome = true ∧ sj.prevTag = keys.sessionTag) :=
          fun hboth => havoid.2 (.inl hboth.1) (hboth.2 ▸ mem_epochTags he)
        simp [hsj, htag, hprev]

theorem UDPMux.Holds.tableSelect (h : m.Holds E i r) (hE : (epochTags E).Nodup)
    (he : E[e]? = some keys) :
    m.tableSelect keys.sessionTag = if e ≤ r then some (i, decide (r = e + 1)) else none := by
  obtain ⟨s, hs, hepoch⟩ := h.session
  obtain ⟨-, hprev⟩ := hepoch.prevTag_iff hE he
  unfold UDPMux.tableSelect
  rw [h.known e keys he]
  by_cases her : e ≤ r
  · simp only [her, if_true, Option.bind_eq_bind, Option.bind_some, hs, Option.pure_def,
      Option.some.injEq, Prod.mk.injEq, true_and, decide_eq_decide, ne_eq, hepoch.tag_iff hE he]
    constructor
    · rintro ⟨hne, htag⟩
      exact (hprev (by omega)).mp htag
    · intro hre
      exact ⟨by omega, (hprev (by omega)).mpr hre⟩
  · simp [her]

/-- **Whatever the most recently used session is, a tag leads to the session if its epoch has
begun, with the flag of the previous epoch.** -/
theorem UDPMux.Holds.select (h : m.Holds E i r) (hE : (epochTags E).Nodup)
    (he : E[e]? = some keys) :
    m.select keys.sessionTag = if e ≤ r then some (i, decide (r = e + 1)) else none := by
  have htable := h.tableSelect hE he
  unfold UDPMux.select
  rcases h.mruSelect hE he with hnone | hsame
  · rw [hnone]
    exact htable
  · rw [hsame, htable]
    split
    · rename_i hsome
      exact hsome.symm
    · rfl

end Tags

/-- **The session opens the datagrams of its current and its previous epoch with the keys of that
epoch, and no others.** -/
theorem UDPMux.Holds.openDatagram (hU : U.AEADLawful) (hideal : IdealAcross U E) (h : m.Holds E i r)
    (hE : (epochTags E).Nodup) {e : ℕ} {keys : UDPKeys} (he : E[e]? = some keys) {ctr : ℕ}
    (hctr : ctr < 2 ^ 64) {plain d : Bytes} (hd : packetData d =
      some (sealPacket U keys.sendKey keys.headerKey keys.sessionTag ctr plain)) :
    (r = e ∨ r = e + 1 → ∃ s, m.sessions[i]? = some s ∧
      m.pick d = some (sealPacket U keys.sendKey keys.headerKey keys.sessionTag ctr plain, i, s,
        keys.sendKey, keys.headerKey) ∧ m.openDatagram U d = some (i, s, ctr, plain)) ∧
    (¬(r = e ∨ r = e + 1) → m.openDatagram U d = none) := by
  obtain ⟨s, hs, cur, hswap, -, hdec, hhp, -, hprev⟩ := h.session
  obtain ⟨cur, hcur, rfl⟩ := getElem?_swap hswap
  have hselect := h.select hE he
  have hpick : e ≤ r → m.pick d = some (sealPacket U keys.sendKey keys.headerKey keys.sessionTag ctr
      plain, i, s, s.recvKeys (decide (r = e + 1))) := fun her => by
    simp [UDPMux.pick, hd, hselect, her, hs]
  constructor
  · intro hre
    have hkeys : s.recvKeys (decide (r = e + 1)) = (keys.sendKey, keys.headerKey) := by
      rcases hprev with ⟨rfl, -⟩ | ⟨q, old, rfl, hswap', hdec', hhp', -⟩
      · obtain rfl : e = 0 := by omega
        rw [he] at hcur
        obtain rfl := Option.some.inj hcur
        simp [UDPSession.recvKeys, hdec, hhp, UDPKeys.swap]
      · obtain ⟨old, hq, rfl⟩ := getElem?_swap hswap'
        by_cases heq : e = q
        · subst heq
          rw [he] at hq
          obtain rfl := Option.some.inj hq
          simp [UDPSession.recvKeys, hdec', hhp', UDPKeys.swap]
        · obtain rfl : e = q + 1 := by omega
          rw [he] at hcur
          obtain rfl := Option.some.inj hcur
          simp [UDPSession.recvKeys, hdec, hhp, UDPKeys.swap]
    have hp := hpick (by omega)
    rw [hkeys] at hp
    refine ⟨s, hs, hp, ?_⟩
    simp [UDPMux.openDatagram, hp, openPacket_sealPacket hU _ _ _ hctr]
  · intro hre
    by_cases her : e ≤ r
    · -- an old tag is tried with the current keys
      have hflag : decide (r = e + 1) = false := by simp; omega
      have hfail : openPacket U cur.sendKey cur.headerKey
          (sealPacket U keys.sendKey keys.headerKey keys.sessionTag ctr plain) = none := by
        simp only [openPacket, drop_sealPacket,
          hideal e r keys cur he hcur (by omega), Option.map_none]
      have hp := hpick her
      rw [hflag] at hp
      simp [UDPMux.openDatagram, hp, UDPSession.recvKeys, hdec, hhp, UDPKeys.swap, hfail]
    · simp [UDPMux.openDatagram, UDPMux.pick, hd, hselect, her]

end Server

end ObsidianVPN.Udp
