import ObsidianVPN.Udp.RatchetInv

/-!
# Runs with ratchets

* `ServerState.Exclusive`: a ratchet overlaps neither with a `Send` of its session nor with the
  look-up of one of its datagrams; **`coherent_of_exclusive`**: then all datagrams are sealed and
  opened with the keys of one epoch;
* **`coherent_runs_iff`**: which runs are coherent, at both ends.
-/

namespace ObsidianVPN.Udp

open ByteStr

/-! ## Runs without overlap -/

section Exclusive

variable {E : ℕ → ℕ → Option UDPKeys} {st : ServerState}

/-- The first section of `RatchetEpoch` finds no call of `Send` for the session between its reads
and no datagram of the session in the look-up; no look-up of such a datagram starts before
`RatchetEpoch` has returned. -/
def ServerState.Exclusive (E : ℕ → ℕ → Option UDPKeys) (st : ServerState) : ServerAct → Prop
  | .ratchetSend i =>
    (∀ k call, st.sends k = some call → call.session = i → call.pc = .start) ∧
    ∀ k call e keys, st.recvs k = some call → E i e = some keys →
      Tag.read call.packet ≠ keys.sessionTag
  | .recvStart _ datagram => ∀ packet i e keys, packetData datagram = some packet →
      E i e = some keys → Tag.read packet = keys.sessionTag → st.stage i = .idle
  | _ => True

/-- The tag that a call of `Send` has read, if it has. -/
def SendPc.tag? : SendPc → Option Tag
  | .start => none
  | .tagged tag | .keyed tag _ => some tag

/-- The look-up of a tag of epoch `e` is on the way to the right keys, if the session `i` stays in
epoch `r`. -/
def RecvPc.Leads (i e r : ℕ) : RecvPc → Prop
  | .mruPrevDec j | .mruPrevTag j => j = i → r ≠ e
  | .sessPrevTag _ => r ≠ e
  | .storeMru _ isPrevTag | .pickKeys _ isPrevTag => isPrevTag = true ↔ r = e + 1
  | _ => True

/-- What holds as long as no ratchet overlaps. -/
structure ServerState.Apart (E : ℕ → ℕ → Option UDPKeys) (st : ServerState) : Prop where
  sends : ∀ k call s tag, st.sends k = some call → st.srv.mux.sessions[call.session]? = some s →
    call.pc.tag? = some tag → s.tag = tag
  recvs : ∀ k call i e keys, st.recvs k = some call → i < st.srv.mux.sessions.length →
    E i e = some keys → Tag.read call.packet = keys.sessionTag →
    st.stage i = .idle ∧ call.since i = st.epoch i ∧
      (st.epoch i ≤ e + 1 → e ≤ st.epoch i → call.pc.Leads i e (st.epoch i))

theorem ServerState.apart_start (srv : UDPServer) (r : ℕ → ℕ) :
    (ServerState.start srv r).Apart E where
  sends := by rintro k call s tag ⟨⟩
  recvs := by rintro k call i e keys ⟨⟩

/-- The rule for a step of `RatchetEpoch`: no datagram of the session is in the look-up. -/
theorem ServerState.Apart.setRatchet (h : st.Apart E) {i c : ℕ} {m : UDPMux} {stage : RatchetStage}
    (hm : st.srv.mux.Grows m) (hother : ∀ j, j ≠ i → m.sessions[j]? = st.srv.mux.sessions[j]?)
    (hsends : ∀ k call s tag, st.sends k = some call → call.session = i →
      m.sessions[i]? = some s → call.pc.tag? = some tag → s.tag = tag)
    (hrecvs : ∀ k call e keys, st.recvs k = some call → i < st.srv.mux.sessions.length →
      E i e = some keys → Tag.read call.packet ≠ keys.sessionTag) :
    (st.setRatchet i m c stage).Apart E where
  sends k call s tag hk hs htag := by
    by_cases hcall : call.session = i
    · exact hsends k call s tag hk hcall (hcall ▸ hs) htag
    · exact h.sends k call s tag hk ((hother _ hcall).symm.trans hs) htag
  recvs k call j e keys hk hj he htag := by
    have hj' : j < st.srv.mux.sessions.length := hm.length ▸ hj
    by_cases hji : j = i
    · subst hji
      exact absurd htag (hrecvs k call e keys hk hj' he)
    · change Function.update st.stage i stage j = .idle ∧
        call.since j = Function.update st.epoch i c j ∧
        (Function.update st.epoch i c j ≤ e + 1 → e ≤ Function.update st.epoch i c j →
          call.pc.Leads j e (Function.update st.epoch i c j))
      rw [Function.update_of_ne hji, Function.update_of_ne hji]
      exact h.recvs k call j e keys hk hj' he htag

/-- While `RatchetEpoch` is under way, no datagram of the session is in the look-up. -/
theorem ServerState.Apart.not_looked_up (h : st.Apart E) {i : ℕ} (hstage : st.stage i ≠ .idle)
    (k : ℕ) (call : RecvCall) (e : ℕ) (keys : UDPKeys) (hk : st.recvs k = some call)
    (hi : i < st.srv.mux.sessions.length) (he : E i e = some keys) :
    Tag.read call.packet ≠ keys.sessionTag :=
  fun htag => hstage (h.recvs k call i e keys hk hi he htag).1

theorem ServerState.Apart.ratchet (h : st.Apart E) (i : ℕ) :
    (st.Exclusive E (.ratchetSend i) → (st.ratchetSend E i).Apart E) ∧
    (st.ratchetRecv i).Apart E ∧ (st.ratchetTag i).Apart E ∧ (st.ratchetSet i).Apart E := by
  refine ⟨fun hex => ?_, ?_, ?_, ?_⟩
  · unfold ServerState.ratchetSend
    split
    · rename_i keys s hidle hnext hs
      refine h.setRatchet (UDPMux.grows_setSession hs id)
        (fun j hj => (UDPMux.getElem?_setSession hs _ j).trans (if_neg hj)) ?_
        fun k call e keys hk _ he => hex.2 k call e keys hk he
      intro k call s' tag hk hcall _ htag
      rw [hex.1 k call hk hcall] at htag
      exact absurd htag (by simp [SendPc.tag?])
    · exact h
  · unfold ServerState.ratchetRecv
    split
    · rename_i k s hbetween hs
      refine h.setRatchet (UDPMux.grows_setSession hs fun _ => rfl)
        (fun j hj => (UDPMux.getElem?_setSession hs _ j).trans (if_neg hj)) ?_
        (h.not_looked_up (by simp [hbetween]))
      intro k' call s' tag hk hcall hs' htag
      rw [UDPMux.getElem?_setSession hs, if_pos rfl] at hs'
      obtain rfl := Option.some.inj hs'
      exact h.sends k' call s tag hk (hcall ▸ hs) htag
    · exact h
  · unfold ServerState.ratchetTag
    split
    · rename_i s hread hs
      exact h.setRatchet (UDPMux.grows_of_sessions_eq rfl) (fun _ _ => rfl)
        (fun k call s' tag hk hcall hs' htag => h.sends k call s' tag hk (hcall ▸ hs') htag)
        (h.not_looked_up (by simp [hread]))
    · exact h
  · unfold ServerState.ratchetSet
    split
    · rename_i tag s hset hs
      exact h.setRatchet (UDPMux.grows_of_sessions_eq rfl) (fun _ _ => rfl)
        (fun k call s' tag hk hcall hs' htag => h.sends k call s' tag hk (hcall ▸ hs') htag)
        (h.not_looked_up (by simp [hset]))
    · exact h

/-- The rule for a step of `Send`. -/
theorem ServerState.Apart.setSend (h : st.Apart E) (srv : UDPServer) (hsrv : srv.mux = st.srv.mux)
    {k : ℕ} {next : Option SendCall} (hnext : ∀ call s tag, next = some call →
      st.srv.mux.sessions[call.session]? = some s → call.pc.tag? = some tag → s.tag = tag) :
    ({ st with
        srv := srv
        sends := Function.update st.sends k next } : ServerState).Apart E where
  sends := by
    change ∀ k' call s tag, Function.update st.sends k next k' = some call →
      srv.mux.sessions[call.session]? = some s → call.pc.tag? = some tag → s.tag = tag
    rw [hsrv]
    exact (Function.forall_update_iff st.sends fun _ slot => ∀ call s tag, slot = some call →
      st.srv.mux.sessions[call.session]? = some s → call.pc.tag? = some tag → s.tag = tag).mpr
      ⟨hnext, fun k' _ => h.sends k'⟩
  recvs := hsrv ▸ h.recvs

theorem ServerState.Apart.sendStart (h : st.Apart E) (k i : ℕ) (payload : Bytes) (poolCap : ℕ)
    (draws : SendDraws) : (st.sendStart k i payload poolCap draws).Apart E := by
  unfold ServerState.sendStart
  split
  · split
    · exact h
    · refine h.setSend _ ?_ ?_
      · rfl
      · rintro _ s tag ⟨⟩ _ htag
        exact absurd htag (by simp [SendPc.tag?])
  · exact h

theorem ServerState.Apart.send (h : st.Apart E) (k : ℕ) : (st.send k).Apart E := by
  unfold ServerState.send
  split
  · exact h
  · rename_i call hcall
    split
    · exact h
    · rename_i s hs
      split
      · refine h.setSend st.srv rfl ?_
        rintro _ s' tag ⟨⟩ hs' htag
        obtain rfl := Option.some.inj (hs.symm.trans hs')
        exact Option.some.inj htag
      · rename_i tag hpc
        refine h.setSend st.srv rfl ?_
        rintro _ s' tag' ⟨⟩ hs' htag
        exact h.sends k call s' tag' hcall hs' (by rw [hpc]; exact htag)
      · refine h.setSend st.srv rfl ?_
        rintro _ _ _ ⟨⟩

/-- What holds of one call of `runOnConn`. -/
def RecvCall.Apart (E : ℕ → ℕ → Option UDPKeys) (st : ServerState) (call : RecvCall) : Prop :=
  ∀ i e keys, i < st.srv.mux.sessions.length → E i e = some keys →
    Tag.read call.packet = keys.sessionTag →
    st.stage i = .idle ∧ call.since i = st.epoch i ∧
      (st.epoch i ≤ e + 1 → e ≤ st.epoch i → call.pc.Leads i e (st.epoch i))

/-- The rule for a step of `runOnConn`. -/
theorem ServerState.Apart.setRecv (h : st.Apart E) {m : UDPMux}
    (hsessions : m.sessions = st.srv.mux.sessions) {k : ℕ} {next : Option RecvCall}
    (hnext : ∀ call, next = some call → call.Apart E st) :
    ({ st with
        srv := { st.srv with mux := m }
        recvs := Function.update st.recvs k next } : ServerState).Apart E where
  sends k' call s tag hk hs := h.sends k' call s tag hk (hsessions ▸ hs)
  recvs k' call i e keys hk' hi := by
    have hslot : ∀ k' call, Function.update st.recvs k next k' = some call → call.Apart E st :=
      (Function.forall_update_iff st.recvs fun _ slot => ∀ call, slot = some call →
        call.Apart E st).mpr ⟨hnext, fun k' _ call hk i e keys => h.recvs k' call i e keys hk⟩
    exact hslot k' call hk' i e keys (hsessions ▸ hi)

theorem ServerState.Apart.recvStart (h : st.Apart E) {k : ℕ} {datagram : Bytes}
    (hex : st.Exclusive E (.recvStart k datagram)) : (st.recvStart k datagram).Apart E := by
  unfold ServerState.recvStart
  split
  · rename_i packet _ hpacket
    refine h.setRecv (m := st.srv.mux) rfl ?_
    rintro _ ⟨⟩ i e keys hi he htag
    have hidle := hex packet i e keys hpacket he htag
    refine ⟨hidle, ?_, fun _ _ => trivial⟩
    change (st.stage i).settled (st.epoch i) = st.epoch i
    rw [hidle]
    rfl
  · exact h

/-- A read of `runOnConn` leads on to the right keys, while the session is in one epoch. -/
theorem ServerState.Inv.leads_recvStep (hE : DistinctKeys fun p : ℕ × ℕ => E p.1 p.2)
    (h : st.Inv E) {i e : ℕ} {keys : UDPKeys} (hi : i < st.srv.mux.sessions.length)
    (he : E i e = some keys) (hidle : st.stage i = .idle) (hlow : st.epoch i ≤ e + 1)
    (hhigh : e ≤ st.epoch i) {pc pc' : RecvPc} (hfits : pc.Fits E st.srv.mux keys.sessionTag)
    (hleads : pc.Leads i e (st.epoch i))
    (hgoes : st.srv.mux.Goes keys.sessionTag pc pc') : pc'.Leads i e (st.epoch i) := by
  obtain ⟨s, hs⟩ : ∃ s, st.srv.mux.sessions[i]? = some s := ⟨_, List.getElem?_eq_getElem hi⟩
  have hat : s.keyFields.At (E i) (st.epoch i) (st.epoch i) := by
    have := h.sessions i s hs
    rwa [hidle] at this
  have htag : s.tag = keys.sessionTag ↔ st.epoch i = e := hat.tag_iff (hE.session i) he
  have hcur : s.tag = keys.sessionTag → (false = true ↔ st.epoch i = e + 1) := fun hsame => by
    have := htag.mp hsame
    simp only [Bool.false_eq_true, false_iff]
    omega
  cases hgoes with
  | mru => trivial
  | table => trivial
  | mruSame ht hsame =>
    obtain rfl := h.owner hE ht he (.inl hsame)
    obtain rfl := Option.some.inj (hs.symm.trans ht)
    exact hcur hsame
  | mruOther ht hother =>
    rintro rfl
    obtain rfl := Option.some.inj (hs.symm.trans ht)
    exact htag.not.mp hother
  | mruPrev ht hsome => exact hleads
  | mruPrevSame ht hsame =>
    have := hleads (h.owner hE ht he (.inr ⟨hfits _ ht, hsame⟩))
    simp only [RecvPc.Leads, true_iff]
    omega
  | found hget => trivial
  | sessSame ht hsame =>
    obtain rfl := hfits i e keys hi he rfl
    obtain rfl := Option.some.inj (hs.symm.trans ht)
    exact hcur hsame
  | sessOther ht hother =>
    obtain rfl := hfits i e keys hi he rfl
    obtain rfl := Option.some.inj (hs.symm.trans ht)
    exact htag.not.mp hother
  | sessPrev ht =>
    obtain rfl := hfits i e keys hi he rfl
    obtain rfl := Option.some.inj (hs.symm.trans ht)
    have hne : st.epoch _ ≠ e := hleads
    simp only [RecvPc.Leads, decide_eq_true_eq]
    exact hat.prevTag_iff (hE.session _) he (by omega)
  | store => exact hleads

theorem ServerState.Apart.recv (hE : DistinctKeys fun p : ℕ × ℕ => E p.1 p.2) (hinv : st.Inv E)
    (h : st.Apart E) (k : ℕ) : (st.recv k).Apart E := by
  unfold ServerState.recv
  split
  · exact h
  · rename_i call hcall
    have hkeep := st.srv.mux.recvStep_keeps (Tag.read call.packet) call.pc
    split
    · rename_i pc m hstep
      rw [hstep] at hkeep
      refine h.setRecv hkeep.1 ?_
      rintro _ ⟨⟩ i e keys hi he htag
      change Tag.read call.packet = keys.sessionTag at htag
      obtain ⟨hidle, hsince, hleads⟩ := h.recvs k call i e keys hcall hi he htag
      refine ⟨hidle, hsince, fun hlow hhigh => ?_⟩
      have hfits := hinv.recvs k call hcall
      rw [htag] at hstep hfits
      exact hinv.leads_recvStep hE hi he hidle hlow hhigh hfits (hleads hlow hhigh)
        (UDPMux.goes_of_recvStep (by rw [hstep]))
    · rename_i next m _ hstep
      rw [hstep] at hkeep
      refine h.setRecv hkeep.1 ?_
      rintro _ ⟨⟩

theorem ServerState.Apart.step (hE : DistinctKeys fun p : ℕ × ℕ => E p.1 p.2) (hinv : st.Inv E)
    (h : st.Apart E) {act : ServerAct} (hex : st.Exclusive E act) : (st.step E act).Apart E := by
  cases act with
  | ratchetSend i => exact (h.ratchet i).1 hex
  | ratchetRecv i => exact (h.ratchet i).2.1
  | ratchetTag i => exact (h.ratchet i).2.2.1
  | ratchetSet i => exact (h.ratchet i).2.2.2
  | sendStart k i payload poolCap draws => exact h.sendStart k i payload poolCap draws
  | send k => exact h.send k
  | recvStart k datagram => exact h.recvStart hex
  | recv k => exact h.recv hE hinv k

/-- As long as no ratchet overlaps, every step is in step with `RatchetEpoch`. -/
theorem ServerState.Apart.inStep (h : st.Apart E) (act : ServerAct) : st.InStep E act := by
  cases act with
  | send k =>
    intro call tag enc s hcall hpc hs
    exact h.sends k call s tag hcall hs (by rw [hpc]; rfl)
  | recv k =>
    intro call hcall i e keys hexp
    obtain ⟨hidle, hsince, hleads⟩ := h.recvs k call i e keys hcall hexp.session hexp.epoch hexp.tag
    have hlow := hexp.low
    have hhigh := hexp.high
    rw [hsince] at hlow
    have hleads := hleads hlow hhigh
    have hsettled : st.settled i = st.epoch i := by rw [ServerState.settled, hidle]; rfl
    have hrecv : st.recvEpoch i = st.epoch i := by rw [ServerState.recvEpoch, hidle]; rfl
    rw [hsettled, hrecv]
    obtain ⟨packet, pc, since⟩ := call
    cases pc with
    | tableGet => exact hhigh
    | pickKeys j isPrevTag =>
      change isPrevTag = true ↔ st.epoch i = e + 1 at hleads
      dsimp only
      split
      · rename_i hboth
        exact hleads.mp hboth.1
      · rename_i hnot
        have hne : st.epoch i ≠ e + 1 := fun heq => hnot ⟨hleads.mpr heq, by omega⟩
        omega
    | _ => trivial
  | ratchetSend i => trivial
  | ratchetRecv i => trivial
  | ratchetTag i => trivial
  | ratchetSet i => trivial
  | sendStart k i payload poolCap draws => trivial
  | recvStart k datagram => trivial

/-- **A run in which a ratchet overlaps neither with a `Send` nor with the look-up of a datagram of
its session is coherent.** -/
theorem coherent_of_exclusive (hE : DistinctKeys fun p : ℕ × ℕ => E p.1 p.2) {srv : UDPServer}
    {r : ℕ → ℕ} (hm : srv.mux.Settled E r) {acts : List ServerAct}
    (hex : Runs.EachStep
      (fun pre act => ((ServerState.start srv r).run E pre).Exclusive E act) acts) :
    Runs.EachStep (fun pre act => ((ServerState.start srv r).run E pre).Coherent E act) acts := by
  have hinv : ∀ pre, ((ServerState.start srv r).run E pre).Inv E :=
    (ServerState.inv_start hm).run hE
  have hapart : Runs.Throughout (fun pre => ((ServerState.start srv r).run E pre).Apart E) acts := by
    refine Runs.throughout_of_eachStep (ServerState.apart_start srv r) (fun pre act _ h hact => ?_) hex
    rw [ServerState.run, List.foldl_append]
    exact h.step hE (hinv pre) hact
  intro pre act hpre
  exact (ServerState.coherent_iff hE (hinv pre) act).mpr
    ((hapart pre ((List.prefix_append pre [act]).trans hpre)).inStep act)

end Exclusive

/-- **A run of either end is coherent exactly when every step is in step with `RatchetEpoch`.** -/
theorem coherent_runs_iff (U : UDPCiphers) {K : ℕ → Option UDPKeys} (hK : DistinctKeys K)
    {keys : UDPKeys} (h0 : K 0 = some keys) {E : ℕ → ℕ → Option UDPKeys}
    (hE : DistinctKeys fun p : ℕ × ℕ => E p.1 p.2) {srv : UDPServer} {r : ℕ → ℕ}
    (hm : srv.mux.Settled E r) :
    (∀ acts : List ChannelAct,
      Runs.EachStep (fun pre act => ((ChannelState.start keys).run U K pre).Coherent K act) acts ↔
      Runs.EachStep (fun pre act => ((ChannelState.start keys).run U K pre).InStep K act) acts) ∧
    (∀ acts : List ServerAct,
      Runs.EachStep (fun pre act => ((ServerState.start srv r).run E pre).Coherent E act) acts ↔
      Runs.EachStep (fun pre act => ((ServerState.start srv r).run E pre).InStep E act) acts) := by
  constructor
  · intro acts
    refine forall₃_congr fun pre act _ => ?_
    exact ChannelState.coherent_iff hK ((ChannelState.inv_start h0).run pre) act
  · intro acts
    refine forall₃_congr fun pre act _ => ?_
    exact ServerState.coherent_iff hE ((ServerState.inv_start hm).run hE pre) act

section Samples

/-- The keys of two epochs. -/
def twoEpochs : ℕ → Option UDPKeys
  | 0 => some ⟨[1], [2], [3], ⟨1, 0, 0, 0⟩⟩
  | 1 => some ⟨[4], [5], [6], ⟨2, 0, 0, 0⟩⟩
  | _ => none

/-- One session with these epochs. -/
def ratchetEpochs : ℕ → ℕ → Option UDPKeys
  | 0 => twoEpochs
  | _ => fun _ => none

/-- A server with this session, which knows its client. -/
def ratchetServer : UDPServer where
  mux := newUDPMux.registerSession ⟨[1], [2], [3], ⟨1, 0, 0, 0⟩⟩
  conn := 0
  states := fun _ => { newSessionState 0 with clientAddr := some ⟨[], 1⟩ }

/-- The shortest datagram with the given tag. -/
def shortest (tag : UInt8) : Bytes := [tag, 0, 0, 0] ++ List.replicate 24 0

theorem twoEpochs_eq_some {e : ℕ} {keys : UDPKeys} (h : twoEpochs e = some keys) :
    e = 0 ∧ keys = ⟨[1], [2], [3], ⟨1, 0, 0, 0⟩⟩ ∨
      e = 1 ∧ keys = ⟨[4], [5], [6], ⟨2, 0, 0, 0⟩⟩ := by
  rcases e with _ | _ | e
  · exact .inl ⟨rfl, (Option.some.inj h).symm⟩
  · exact .inr ⟨rfl, (Option.some.inj h).symm⟩
  · exact absurd h (by simp [twoEpochs])

theorem distinct_twoEpochs : DistinctKeys twoEpochs := by
  constructor <;> intro a b x y ha hb heq <;>
    rcases twoEpochs_eq_some ha with ⟨rfl, rfl⟩ | ⟨rfl, rfl⟩ <;>
    rcases twoEpochs_eq_some hb with ⟨rfl, rfl⟩ | ⟨rfl, rfl⟩ <;>
    first | rfl | exact absurd heq (by decide)

theorem ratchetEpochs_eq_some {p : ℕ × ℕ} {keys : UDPKeys} (h : ratchetEpochs p.1 p.2 = some keys) :
    p.1 = 0 ∧ twoEpochs p.2 = some keys := by
  obtain ⟨i, e⟩ := p
  cases i with
  | zero => exact ⟨rfl, h⟩
  | succ i => exact absurd h (by simp [ratchetEpochs])

theorem distinct_ratchetEpochs : DistinctKeys fun p : ℕ × ℕ => ratchetEpochs p.1 p.2 := by
  constructor <;> intro a b x y ha hb heq <;>
    obtain ⟨ha0, ha⟩ := ratchetEpochs_eq_some ha <;> obtain ⟨hb0, hb⟩ := ratchetEpochs_eq_some hb <;>
    refine Prod.ext (ha0.trans hb0.symm) ?_
  · exact distinct_twoEpochs.tag ha hb heq
  · exact distinct_twoEpochs.send ha hb heq
  · exact distinct_twoEpochs.recv ha hb heq
  · exact distinct_twoEpochs.header ha hb heq

theorem settled_ratchetServer : ratchetServer.mux.Settled ratchetEpochs fun _ => 0 where
  fields i s hs := by
    cases i with
    | zero =>
      obtain rfl := Option.some.inj hs
      exact ⟨⟨_, rfl, rfl, rfl, rfl⟩, ⟨_, rfl, rfl⟩, .inl ⟨rfl, rfl, rfl⟩⟩
    | succ i => exact absurd hs (by simp [ratchetServer, UDPMux.registerSession, newUDPMux])
  table i e keys hi he := by
    obtain rfl : i = 0 := Nat.lt_one_iff.mp hi
    rcases twoEpochs_eq_some he with ⟨rfl, rfl⟩ | ⟨rfl, rfl⟩ <;> decide

/-- Between the sections the client opens a datagram of the new epoch with the old AEAD key. `Send`
on the server puts the old tag before what it seals with the new keys, and `runOnConn` takes the
new header key for a datagram of the old epoch. -/
theorem torn_by_ratchet :
    ¬((ChannelState.start ⟨[1], [2], [3], ⟨1, 0, 0, 0⟩⟩).run .sample twoEpochs
      [.ratchetSend]).Coherent twoEpochs (.recv (shortest 2)) ∧
    ¬((ServerState.start ratchetServer fun _ => 0).run ratchetEpochs
      [.sendStart 0 0 [7] 2048 sampleDraws, .send 0, .ratchetSend 0, .send 0]).Coherent ratchetEpochs
      (.send 0) ∧
    ¬((ServerState.start ratchetServer fun _ => 0).run ratchetEpochs
      [.recvStart 0 (shortest 1), .recv 0, .recv 0, .ratchetSend 0]).Coherent ratchetEpochs
      (.recv 0) := by
  refine ⟨fun h => ?_, fun h => ?_, fun h => ?_⟩
  · have hkeys := h (shortest 2) 1 _ (by decide) rfl (by decide) ⟨by decide, by decide⟩
    exact absurd hkeys (by decide)
  · obtain ⟨e, keys, he, hseal⟩ := h _ _ rfl
    rcases twoEpochs_eq_some he with ⟨rfl, rfl⟩ | ⟨rfl, rfl⟩ <;> revert hseal <;> decide
  · have hkeys : 0 = 0 ∧ ([2] : Bytes) = [2] ∧ ([6] : Bytes) = [3] :=
      h _ rfl 0 0 _ ⟨by decide, rfl, by decide, by decide, by decide⟩
    exact absurd hkeys.2.2 (by decide)

/-- After the two sections both ends open a datagram of the old epoch with the old keys. -/
theorem coherent_after_ratchet :
    Runs.EachStep (fun pre act => ((ChannelState.start ⟨[1], [2], [3], ⟨1, 0, 0, 0⟩⟩).run .sample
      twoEpochs pre).Coherent twoEpochs act) [.ratchetSend, .ratchetRecv, .recv (shortest 1)] ∧
    Runs.EachStep (fun pre act => ((ServerState.start ratchetServer fun _ => 0).run ratchetEpochs
      pre).Coherent ratchetEpochs act)
      [.ratchetSend 0, .ratchetRecv 0, .recvStart 0 (shortest 1), .recv 0, .recv 0, .recv 0,
        .recv 0, .recv 0] := by
  have hruns := coherent_runs_iff .sample distinct_twoEpochs rfl distinct_ratchetEpochs
    settled_ratchetServer
  refine ⟨(hruns.1 _).mpr ?_, (hruns.2 _).mpr ?_⟩
  · simp only [Runs.eachStep_cons, Runs.eachStep_nil, and_true]
    exact ⟨trivial, trivial, fun _ _ _ _ _ _ _ => .inl rfl⟩
  · simp only [Runs.eachStep_cons, Runs.eachStep_nil, and_true]
    refine ⟨trivial, trivial, trivial, ?_, ?_, ?_, ?_, ?_⟩ <;> rintro call ⟨⟩ i e keys hexp
    · trivial
    · trivial
    · trivial
    · trivial
    · obtain ⟨h0, he⟩ := ratchetEpochs_eq_some (p := (i, e)) hexp.epoch
      obtain rfl : i = 0 := h0
      have htag := hexp.tag
      rcases twoEpochs_eq_some he with ⟨he0, -⟩ | ⟨-, rfl⟩
      · obtain rfl : e = 0 := he0
        change if true = true ∧ 0 < 1 then 1 = 0 + 1 else _
        rfl
      · exact absurd htag (by decide)

end Samples

end ObsidianVPN.Udp
