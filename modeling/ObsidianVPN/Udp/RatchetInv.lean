import ObsidianVPN.Udp.RatchetMux

/-!
# The epochs of the sessions during a ratchet

The key fields of a session are those of the epochs that its ratchets have reached, and the reads
of `Send` and `runOnConn` come from epochs that have begun. From this follows which steps use the
keys of one epoch.

* `ServerState.Inv`: the invariant; `Inv.step`, `Inv.run`: it holds in every run;
* `UDPMux.Goes`: what a read of `runOnConn` has shown when the look-up goes on;
* `ofEpoch_iff`, `UDPSession.recvKeys_iff`: `Send` and `runOnConn` at their last read;
* **`ServerState.coherent_iff`**: a step is coherent exactly when it is in step with the ratchets.
-/

namespace ObsidianVPN.Udp

open ByteStr

/-! ## The invariant -/

/-- A settled multiplexer: every session is in its epoch `r i`, and the table has the tags up to
this epoch. -/
structure UDPMux.Settled (E : ℕ → ℕ → Option UDPKeys) (r : ℕ → ℕ) (m : UDPMux) : Prop where
  fields : ∀ (i : ℕ) (s : UDPSession), m.sessions[i]? = some s →
    s.keyFields.At (E i) (r i) (r i)
  table : ∀ i e keys, i < m.sessions.length → E i e = some keys →
    m.table.get keys.sessionTag = if e ≤ r i then some i else none

/-- The session is where `RatchetEpoch` has left it, after `c` first sections. -/
def RatchetStage.Fits (K : ℕ → Option UDPKeys) (c : ℕ) (s : UDPSession) : RatchetStage → Prop
  | .idle => s.keyFields.At K c c
  | .between k => ∃ q, c = q + 1 ∧ s.keyFields.At K (q + 1) q ∧ k.From K q
  | .readTag => 0 < c ∧ s.keyFields.At K c c
  | .setTag tag => 0 < c ∧ s.keyFields.At K c c ∧ tag = s.tag

/-- What `Send` has read comes from epochs that have begun, in their order. -/
def SendPc.Fits (K : ℕ → Option UDPKeys) (c : ℕ) : SendPc → Prop
  | .start => True
  | .tagged tag => ∃ a keys, a ≤ c ∧ K a = some keys ∧ tag = keys.sessionTag
  | .keyed tag enc => ∃ a b keys keys', a ≤ b ∧ b ≤ c ∧ K a = some keys ∧
      tag = keys.sessionTag ∧ K b = some keys' ∧ enc = keys'.sendKey

/-- What `runOnConn` knows of the multiplexer: a session that it has found is the one of the tag. -/
def RecvPc.Fits (E : ℕ → ℕ → Option UDPKeys) (m : UDPMux) (tag : Tag) : RecvPc → Prop
  | .mruPrevTag j => ∀ s, m.sessions[j]? = some s → s.prevDecAEAD.isSome = true
  | .sessTag j | .sessPrevTag j | .storeMru j _ | .pickKeys j _ =>
    ∀ i e keys, i < m.sessions.length → E i e = some keys → tag = keys.sessionTag → j = i
  | _ => True

structure ServerState.Inv (E : ℕ → ℕ → Option UDPKeys) (st : ServerState) : Prop where
  sessions : ∀ i s, st.srv.mux.sessions[i]? = some s → (st.stage i).Fits (E i) (st.epoch i) s
  table : ∀ i e keys, i < st.srv.mux.sessions.length → E i e = some keys →
    st.srv.mux.table.get keys.sessionTag = if e ≤ st.settled i then some i else none
  sends : ∀ k call, st.sends k = some call → call.pc.Fits (E call.session) (st.epoch call.session)
  recvs : ∀ k call, st.recvs k = some call → call.pc.Fits E st.srv.mux (Tag.read call.packet)

section Inv

variable {E : ℕ → ℕ → Option UDPKeys} {st : ServerState}

theorem DistinctKeys.session (hE : DistinctKeys fun p : ℕ × ℕ => E p.1 p.2) (i : ℕ) :
    DistinctKeys (E i) where
  tag ha hb h := congrArg Prod.snd (hE.tag (a := (i, _)) (b := (i, _)) ha hb h)
  send ha hb h := congrArg Prod.snd (hE.send (a := (i, _)) (b := (i, _)) ha hb h)
  recv ha hb h := congrArg Prod.snd (hE.recv (a := (i, _)) (b := (i, _)) ha hb h)
  header ha hb h := congrArg Prod.snd (hE.header (a := (i, _)) (b := (i, _)) ha hb h)

theorem RatchetStage.Fits.at {K : ℕ → Option UDPKeys} {c : ℕ} {s : UDPSession}
    {stage : RatchetStage} (h : stage.Fits K c s) : s.keyFields.At K c (stage.recvEpoch c) := by
  cases stage with
  | idle => exact h
  | between k =>
    obtain ⟨q, rfl, hat, -⟩ := h
    exact hat
  | readTag => exact h.2
  | setTag tag => exact h.2.1

theorem ServerState.inv_start {srv : UDPServer} {r : ℕ → ℕ} (h : srv.mux.Settled E r) :
    (ServerState.start srv r).Inv E where
  sessions := h.fields
  table := h.table
  sends := by rintro k call ⟨⟩
  recvs := by rintro k call ⟨⟩

theorem SendPc.Fits.mono {K : ℕ → Option UDPKeys} {c c' : ℕ} (hc : c ≤ c') {pc : SendPc}
    (h : pc.Fits K c) : pc.Fits K c' := by
  cases pc with
  | start => trivial
  | tagged tag =>
    obtain ⟨a, keys, ha, hrest⟩ := h
    exact ⟨a, keys, ha.trans hc, hrest⟩
  | keyed tag enc =>
    obtain ⟨a, b, keys, keys', hab, hb, hrest⟩ := h
    exact ⟨a, b, keys, keys', hab, hb.trans hc, hrest⟩

/-- The sessions are the same, and none of them has lost its previous keys. -/
structure UDPMux.Grows (m m' : UDPMux) : Prop where
  length : m'.sessions.length = m.sessions.length
  prev : ∀ (j : ℕ) (s' : UDPSession), m'.sessions[j]? = some s' →
    ∃ s : UDPSession, m.sessions[j]? = some s ∧
      (s.prevDecAEAD.isSome = true → s'.prevDecAEAD.isSome = true)

theorem RecvPc.Fits.mono {m m' : UDPMux} (hm : m.Grows m') {tag : Tag} {pc : RecvPc}
    (h : pc.Fits E m tag) : pc.Fits E m' tag := by
  cases pc with
  | mruPrevTag j =>
    intro s' hs'
    obtain ⟨s, hs, hprev⟩ := hm.prev j s' hs'
    exact hprev (h s hs)
  | sessTag j => exact fun i e keys hi => h i e keys (hm.length ▸ hi)
  | sessPrevTag j => exact fun i e keys hi => h i e keys (hm.length ▸ hi)
  | storeMru j p => exact fun i e keys hi => h i e keys (hm.length ▸ hi)
  | pickKeys j p => exact fun i e keys hi => h i e keys (hm.length ▸ hi)
  | loadMru => trivial
  | mruTag j => trivial
  | mruPrevDec j => trivial
  | tableGet => trivial

theorem UDPMux.grows_setSession {m : UDPMux} {i : ℕ} {s t : UDPSession}
    (hs : m.sessions[i]? = some s) (hprev : s.prevDecAEAD.isSome = true →
      t.prevDecAEAD.isSome = true) : m.Grows (m.setSession i t) where
  length := List.length_set
  prev j s' hs' := by
    rw [UDPMux.setSession, List.getElem?_set] at hs'
    split at hs'
    · rename_i hij
      subst hij
      split at hs'
      · obtain rfl := Option.some.inj hs'
        exact ⟨s, hs, hprev⟩
      · exact absurd hs' (by simp)
    · exact ⟨s', hs', id⟩

theorem UDPMux.grows_of_sessions_eq {m m' : UDPMux} (h : m'.sessions = m.sessions) : m.Grows m' where
  length := by rw [h]
  prev j s' hs' := ⟨s', by rw [← h]; exact hs', id⟩

theorem UDPMux.getElem?_setSession {m : UDPMux} {i : ℕ} {s : UDPSession}
    (hs : m.sessions[i]? = some s) (t : UDPSession) (j : ℕ) :
    (m.setSession i t).sessions[j]? = if j = i then some t else m.sessions[j]? := by
  have hi : i < m.sessions.length := (List.getElem?_eq_some_iff.mp hs).1
  rw [UDPMux.setSession, List.getElem?_set]
  by_cases hj : i = j
  · subst hj; simp [hi]
  · simp [hj, Ne.symm hj]

/-- The rule for a step of `RatchetEpoch`. -/
theorem ServerState.Inv.setRatchet (h : st.Inv E) {i c : ℕ} {m : UDPMux} {stage : RatchetStage}
    (hm : st.srv.mux.Grows m) (hc : st.epoch i ≤ c)
    (hother : ∀ j, j ≠ i → m.sessions[j]? = st.srv.mux.sessions[j]?)
    (hfits : ∀ s, m.sessions[i]? = some s → stage.Fits (E i) c s)
    (htable : ∀ j e keys, j < st.srv.mux.sessions.length → E j e = some keys →
      m.table.get keys.sessionTag =
        if e ≤ (if j = i then stage.settled c else st.settled j) then some j else none) :
    (st.setRatchet i m c stage).Inv E where
  sessions j s hs := by
    change (Function.update st.stage i stage j).Fits (E j) (Function.update st.epoch i c j) s
    by_cases hj : j = i
    · subst hj
      rw [Function.update_self, Function.update_self]
      exact hfits s hs
    · rw [Function.update_of_ne hj, Function.update_of_ne hj]
      exact h.sessions j s ((hother j hj).symm.trans hs)
  table j e keys hj he := by
    change m.table.get keys.sessionTag = if e ≤ (Function.update st.stage i stage j).settled
      (Function.update st.epoch i c j) then some j else none
    rw [htable j e keys (hm.length ▸ hj) he]
    by_cases hji : j = i
    · subst hji
      rw [if_pos rfl, Function.update_self, Function.update_self]
    · rw [if_neg hji, Function.update_of_ne hji, Function.update_of_ne hji]
      rfl
  sends k call hk := by
    refine (h.sends k call hk).mono ?_
    change st.epoch call.session ≤ Function.update st.epoch i c call.session
    by_cases hcall : call.session = i
    · rw [hcall, Function.update_self]
      exact hc
    · rw [Function.update_of_ne hcall]
  recvs k call hk := (h.recvs k call hk).mono hm

/-- The same, if the table stays as it is. -/
theorem ServerState.Inv.setRatchet_of_table_eq (h : st.Inv E) {i c : ℕ} {m : UDPMux}
    {stage : RatchetStage} (hm : st.srv.mux.Grows m) (hc : st.epoch i ≤ c)
    (hother : ∀ j, j ≠ i → m.sessions[j]? = st.srv.mux.sessions[j]?)
    (hfits : ∀ s, m.sessions[i]? = some s → stage.Fits (E i) c s)
    (htable : m.table = st.srv.mux.table) (hsettled : stage.settled c = st.settled i) :
    (st.setRatchet i m c stage).Inv E := by
  refine h.setRatchet hm hc hother hfits fun j e keys hj he => ?_
  rw [htable, h.table j e keys hj he]
  by_cases hji : j = i
  · subst hji
    rw [if_pos rfl, hsettled]
  · rw [if_neg hji]

theorem ServerState.Inv.ratchetSend (h : st.Inv E) (i : ℕ) : (st.ratchetSend E i).Inv E := by
  unfold ServerState.ratchetSend
  split
  · rename_i keys s hidle hnext hs
    have hat : s.keyFields.At (E i) (st.epoch i) (st.epoch i) := by
      have := h.sessions i s hs
      rwa [hidle] at this
    have hget := UDPMux.getElem?_setSession hs (s.ratchetSend keys).1
    refine h.setRatchet_of_table_eq (UDPMux.grows_setSession hs id) (Nat.le_succ _)
      (fun j hj => (hget j).trans (if_neg hj)) (fun t ht => ?_) rfl ?_
    · obtain rfl := Option.some.inj (ht.symm.trans ((hget i).trans (if_pos rfl)))
      exact ⟨_, rfl, hat.ratchetSend hnext⟩
    · rw [ServerState.settled, hidle]
      rfl
  · exact h

theorem ServerState.Inv.ratchetRecv (h : st.Inv E) (i : ℕ) : (st.ratchetRecv i).Inv E := by
  unfold ServerState.ratchetRecv
  split
  · rename_i k s hbetween hs
    obtain ⟨q, hq, hat, hk⟩ : ∃ q, st.epoch i = q + 1 ∧ s.keyFields.At (E i) (q + 1) q ∧
        k.From (E i) q := by
      have := h.sessions i s hs
      rwa [hbetween] at this
    have hget := UDPMux.getElem?_setSession hs (s.ratchetRecv k)
    refine h.setRatchet_of_table_eq (UDPMux.grows_setSession hs fun _ => rfl) le_rfl
      (fun j hj => (hget j).trans (if_neg hj)) (fun t ht => ?_) rfl ?_
    · obtain rfl := Option.some.inj (ht.symm.trans ((hget i).trans (if_pos rfl)))
      rw [hq]
      exact ⟨Nat.succ_pos q, hat.ratchetRecv hk⟩
    · rw [ServerState.settled, hbetween]
      rfl
  · exact h

theorem ServerState.Inv.ratchetTag (h : st.Inv E) (i : ℕ) : (st.ratchetTag i).Inv E := by
  unfold ServerState.ratchetTag
  split
  · rename_i s hread hs
    obtain ⟨hpos, hat⟩ : 0 < st.epoch i ∧ s.keyFields.At (E i) (st.epoch i) (st.epoch i) := by
      have := h.sessions i s hs
      rwa [hread] at this
    refine h.setRatchet_of_table_eq (UDPMux.grows_of_sessions_eq rfl) le_rfl (fun _ _ => rfl)
      (fun t ht => ?_) rfl ?_
    · obtain rfl := Option.some.inj (ht.symm.trans hs)
      exact ⟨hpos, hat, rfl⟩
    · rw [ServerState.settled, hread]
      rfl
  · exact h

/-- The tag that is added to the table is the one of the epoch that has begun. -/
theorem ServerState.Inv.ratchetSet (hE : DistinctKeys fun p : ℕ × ℕ => E p.1 p.2) (h : st.Inv E)
    (i : ℕ) : (st.ratchetSet i).Inv E := by
  unfold ServerState.ratchetSet
  split
  · rename_i tag s hset hs
    obtain ⟨hpos, hat, htag⟩ : 0 < st.epoch i ∧
        s.keyFields.At (E i) (st.epoch i) (st.epoch i) ∧ tag = s.tag := by
      have := h.sessions i s hs
      rwa [hset] at this
    have hsettled : st.settled i = st.epoch i - 1 := by
      rw [ServerState.settled, hset]
      rfl
    refine h.setRatchet (UDPMux.grows_of_sessions_eq rfl) le_rfl (fun _ _ => rfl) (fun t ht => ?_)
      fun j e keys hj he => ?_
    · obtain rfl := Option.some.inj (ht.symm.trans hs)
      exact hat
    · change (st.srv.mux.table.set tag i).get keys.sessionTag = _
      rw [ShardedMap.get_set, h.table j e keys hj he]
      obtain ⟨cur, hcur, -, -, hcurTag⟩ := hat.send
      change s.tag = cur.sessionTag at hcurTag
      by_cases hji : j = i
      · subst hji
        have hiff : keys.sessionTag = tag ↔ st.epoch j = e := by
          rw [htag, eq_comm]
          exact hat.tag_iff (hE.session j) he
        rw [if_pos rfl, hsettled]
        change _ = if e ≤ st.epoch j then some j else none
        by_cases hje : st.epoch j = e
        · rw [if_pos (hiff.mpr hje), if_pos hje.ge]
        · rw [if_neg (hiff.not.mpr hje)]
          simp only [show e ≤ st.epoch j - 1 ↔ e ≤ st.epoch j by omega]
      · have hne : keys.sessionTag ≠ tag := fun heq =>
          hji (congrArg Prod.fst (hE.tag (a := (j, e)) (b := (i, st.epoch i)) he hcur
            (heq.trans (htag.trans hcurTag))))
        rw [if_neg hne, if_neg hji]
  · exact h

/-! ### `Send` -/

/-- The rule for a step of `Send`. -/
theorem ServerState.Inv.setSend (h : st.Inv E) (srv : UDPServer) (hsrv : srv.mux = st.srv.mux) {k : ℕ}
    {next : Option SendCall} (hnext : ∀ call, next = some call →
      call.pc.Fits (E call.session) (st.epoch call.session)) :
    ({ st with
        srv := srv
        sends := Function.update st.sends k next } : ServerState).Inv E where
  sessions := hsrv ▸ h.sessions
  table := hsrv ▸ h.table
  sends := (Function.forall_update_iff st.sends fun _ slot => ∀ call, slot = some call →
    call.pc.Fits (E call.session) (st.epoch call.session)).mpr ⟨hnext, fun k' _ => h.sends k'⟩
  recvs := hsrv ▸ h.recvs

theorem ServerState.Inv.sendStart (h : st.Inv E) (k i : ℕ) (payload : Bytes) (poolCap : ℕ)
    (draws : SendDraws) : (st.sendStart k i payload poolCap draws).Inv E := by
  unfold ServerState.sendStart
  split
  · split
    · exact h
    · refine h.setSend _ ?_ ?_
      · rfl
      · rintro _ ⟨⟩
        trivial
  · exact h

theorem ServerState.Inv.send (h : st.Inv E) (k : ℕ) : (st.send k).Inv E := by
  unfold ServerState.send
  split
  · exact h
  · rename_i call hcall
    split
    · exact h
    · rename_i s hs
      -- the field that is read now is the one of the epoch that has begun
      obtain ⟨cur, hcur, henc, -, htag⟩ := (h.sessions _ s hs).at.send
      have hfits := h.sends k call hcall
      split
      · refine h.setSend st.srv rfl ?_
        rintro _ ⟨⟩
        exact ⟨_, cur, le_rfl, hcur, htag⟩
      · rename_i tag hpc
        rw [hpc] at hfits
        obtain ⟨a, keys, ha, hkeys, rfl⟩ := hfits
        refine h.setSend st.srv rfl ?_
        rintro _ ⟨⟩
        exact ⟨a, _, keys, cur, ha, le_rfl, hkeys, rfl, hcur, henc⟩
      · refine h.setSend st.srv rfl ?_
        rintro _ ⟨⟩

/-! ### `runOnConn` -/

theorem UDPMux.recvStep_keeps (m : UDPMux) (tag : Tag) (pc : RecvPc) :
    (m.recvStep tag pc).2.sessions = m.sessions ∧ (m.recvStep tag pc).2.table = m.table := by
  cases pc <;> dsimp only [UDPMux.recvStep] <;> (repeat' split) <;> exact ⟨rfl, rfl⟩

/-- A session whose tag `runOnConn` has read is the one of the tag. -/
theorem ServerState.Inv.owner (hE : DistinctKeys fun p : ℕ × ℕ => E p.1 p.2) (h : st.Inv E)
    {i j e : ℕ} {s : UDPSession} {keys : UDPKeys} (hs : st.srv.mux.sessions[j]? = some s)
    (he : E i e = some keys)
    (htag : s.tag = keys.sessionTag ∨ s.prevDecAEAD.isSome = true ∧ s.prevTag = keys.sessionTag) :
    j = i := by
  have hat := (h.sessions j s hs).at
  obtain ⟨cur, hcur, -, -, hcurTag⟩ := hat.send
  rcases htag with htag | ⟨hsome, htag⟩
  · exact congrArg Prod.fst (hE.tag (a := (j, _)) (b := (i, e)) hcur he (hcurTag.symm.trans htag))
  · rcases hat.prev with ⟨-, hnone, -⟩ | ⟨q, old, -, hold, -, -, holdTag⟩
    · rw [show s.prevDecAEAD = none from hnone] at hsome
      exact absurd hsome (by simp)
    · exact congrArg Prod.fst
        (hE.tag (a := (j, q)) (b := (i, e)) hold he (holdTag.symm.trans htag))

/-- How the look-up of a tag goes on, and what the read has shown. -/
inductive UDPMux.Goes (m : UDPMux) (tag : Tag) : RecvPc → RecvPc → Prop
  | mru {j : ℕ} : Goes m tag .loadMru (.mruTag j)
  /-- The fast path ends without a session. -/
  | table {pc : RecvPc} : Goes m tag pc .tableGet
  | mruSame {j : ℕ} {s : UDPSession} (hs : m.sessions[j]? = some s) (hsame : s.tag = tag) :
    Goes m tag (.mruTag j) (.pickKeys j false)
  | mruOther {j : ℕ} {s : UDPSession} (hs : m.sessions[j]? = some s) (hother : s.tag ≠ tag) :
    Goes m tag (.mruTag j) (.mruPrevDec j)
  | mruPrev {j : ℕ} {s : UDPSession} (hs : m.sessions[j]? = some s)
    (hsome : s.prevDecAEAD.isSome = true) : Goes m tag (.mruPrevDec j) (.mruPrevTag j)
  | mruPrevSame {j : ℕ} {s : UDPSession} (hs : m.sessions[j]? = some s) (hsame : s.prevTag = tag) :
    Goes m tag (.mruPrevTag j) (.pickKeys j true)
  | found {j : ℕ} (hget : m.table.get tag = some j) : Goes m tag .tableGet (.sessTag j)
  | sessSame {j : ℕ} {s : UDPSession} (hs : m.sessions[j]? = some s) (hsame : s.tag = tag) :
    Goes m tag (.sessTag j) (.storeMru j false)
  | sessOther {j : ℕ} {s : UDPSession} (hs : m.sessions[j]? = some s) (hother : s.tag ≠ tag) :
    Goes m tag (.sessTag j) (.sessPrevTag j)
  | sessPrev {j : ℕ} {s : UDPSession} (hs : m.sessions[j]? = some s) :
    Goes m tag (.sessPrevTag j) (.storeMru j (decide (s.prevTag = tag)))
  | store {j : ℕ} {isPrevTag : Bool} : Goes m tag (.storeMru j isPrevTag) (.pickKeys j isPrevTag)

theorem UDPMux.goes_of_recvStep {m : UDPMux} {tag : Tag} {pc pc' : RecvPc}
    (hstep : (m.recvStep tag pc).1 = .goto pc') : m.Goes tag pc pc' := by
  cases pc with
  | loadMru =>
    simp only [UDPMux.recvStep] at hstep
    split at hstep <;> cases hstep
    · exact .mru
    · exact .table
  | mruTag j =>
    simp only [UDPMux.recvStep] at hstep
    split at hstep
    · split at hstep <;> cases hstep
      · exact .mruSame ‹_› ‹_›
      · exact .mruOther ‹_› ‹_›
    · cases hstep
      exact .table
  | mruPrevDec j =>
    simp only [UDPMux.recvStep] at hstep
    split at hstep
    · split at hstep <;> cases hstep
      · exact .mruPrev ‹_› ‹_›
      · exact .table
    · cases hstep
      exact .table
  | mruPrevTag j =>
    simp only [UDPMux.recvStep] at hstep
    split at hstep
    · split at hstep <;> cases hstep
      · exact .mruPrevSame ‹_› ‹_›
      · exact .table
    · cases hstep
      exact .table
  | tableGet =>
    simp only [UDPMux.recvStep] at hstep
    split at hstep <;> cases hstep
    exact .found ‹_›
  | sessTag j =>
    simp only [UDPMux.recvStep] at hstep
    split at hstep
    · split at hstep <;> cases hstep
      · exact .sessOther ‹_› ‹_›
      · exact .sessSame ‹_› (not_not.mp ‹_›)
    · cases hstep
  | sessPrevTag j =>
    simp only [UDPMux.recvStep] at hstep
    split at hstep <;> cases hstep
    exact .sessPrev ‹_›
  | storeMru j isPrevTag =>
    cases hstep
    exact .store
  | pickKeys j isPrevTag =>
    simp only [UDPMux.recvStep] at hstep
    split at hstep <;> cases hstep

/-- What `runOnConn` reads next keeps what it knows. -/
theorem ServerState.Inv.recvStep (hE : DistinctKeys fun p : ℕ × ℕ => E p.1 p.2) (h : st.Inv E)
    {tag : Tag} {pc pc' : RecvPc} (hpc : pc.Fits E st.srv.mux tag)
    (hgoes : st.srv.mux.Goes tag pc pc') : pc'.Fits E st.srv.mux tag := by
  cases hgoes with
  | mru => trivial
  | table => trivial
  | mruSame hs hsame =>
    exact fun i e keys _ he hkeys => h.owner hE hs he (.inl (hsame.trans hkeys))
  | mruOther hs hother => trivial
  | mruPrev hs hsome =>
    intro s' hs'
    obtain rfl := Option.some.inj (hs.symm.trans hs')
    exact hsome
  | mruPrevSame hs hsame =>
    exact fun i e keys _ he hkeys => h.owner hE hs he (.inr ⟨hpc _ hs, hsame.trans hkeys⟩)
  | found hget =>
    intro i e keys hi he hkeys
    rw [hkeys, h.table i e keys hi he] at hget
    split at hget
    · exact (Option.some.inj hget).symm
    · exact absurd hget (by simp)
  | sessSame hs hsame => exact hpc
  | sessOther hs hother => exact hpc
  | sessPrev hs => exact hpc
  | store => exact hpc

/-- The rule for a step of `runOnConn`. -/
theorem ServerState.Inv.setRecv (h : st.Inv E) {m : UDPMux}
    (hsessions : m.sessions = st.srv.mux.sessions) (htable : m.table = st.srv.mux.table) {k : ℕ}
    {next : Option RecvCall} (hnext : ∀ call, next = some call →
      call.pc.Fits E st.srv.mux (Tag.read call.packet)) :
    ({ st with
        srv := { st.srv with mux := m }
        recvs := Function.update st.recvs k next } : ServerState).Inv E where
  sessions i s hs := h.sessions i s (hsessions ▸ hs)
  table i e keys hi he := by
    change m.table.get keys.sessionTag = _
    rw [htable]
    exact h.table i e keys (hsessions ▸ hi) he
  sends := h.sends
  recvs := by
    have hgrows : st.srv.mux.Grows m := UDPMux.grows_of_sessions_eq hsessions
    refine (Function.forall_update_iff st.recvs fun _ slot => ∀ call, slot = some call →
      call.pc.Fits E m (Tag.read call.packet)).mpr ⟨fun call hcall => ?_, fun k' _ call hcall => ?_⟩
    · exact (hnext call hcall).mono hgrows
    · exact (h.recvs k' call hcall).mono hgrows

theorem ServerState.Inv.recvStart (h : st.Inv E) (k : ℕ) (datagram : Bytes) :
    (st.recvStart k datagram).Inv E := by
  unfold ServerState.recvStart
  split
  · refine h.setRecv (m := st.srv.mux) rfl rfl ?_
    rintro _ ⟨⟩
    trivial
  · exact h

theorem ServerState.Inv.recv (hE : DistinctKeys fun p : ℕ × ℕ => E p.1 p.2) (h : st.Inv E) (k : ℕ) :
    (st.recv k).Inv E := by
  unfold ServerState.recv
  split
  · exact h
  · rename_i call hcall
    have hkeep := st.srv.mux.recvStep_keeps (Tag.read call.packet) call.pc
    split
    · rename_i pc m hstep
      rw [hstep] at hkeep
      refine h.setRecv hkeep.1 hkeep.2 ?_
      rintro _ ⟨⟩
      exact h.recvStep hE (h.recvs k call hcall) (UDPMux.goes_of_recvStep (by rw [hstep]))
    · rename_i next m _ hstep
      rw [hstep] at hkeep
      refine h.setRecv hkeep.1 hkeep.2 ?_
      rintro _ ⟨⟩

/-- **The invariant holds after every step.** -/
theorem ServerState.Inv.step (hE : DistinctKeys fun p : ℕ × ℕ => E p.1 p.2) (h : st.Inv E)
    (act : ServerAct) : (st.step E act).Inv E := by
  cases act with
  | ratchetSend i => exact h.ratchetSend i
  | ratchetRecv i => exact h.ratchetRecv i
  | ratchetTag i => exact h.ratchetTag i
  | ratchetSet i => exact h.ratchetSet hE i
  | sendStart k i payload poolCap draws => exact h.sendStart k i payload poolCap draws
  | send k => exact h.send k
  | recvStart k datagram => exact h.recvStart k datagram
  | recv k => exact h.recv hE k

theorem ServerState.Inv.run (hE : DistinctKeys fun p : ℕ × ℕ => E p.1 p.2) (h : st.Inv E)
    (acts : List ServerAct) : (st.run E acts).Inv E := by
  induction acts generalizing st with
  | nil => exact h
  | cons act acts ih => exact ih (h.step hE act)

/-! ## When a step is coherent -/

/-- The keys that `runOnConn` picks, in terms of the sections done so far. -/
theorem UDPSession.recvKeys_iff {K : ℕ → Option UDPKeys} (hK : DistinctKeys K) {s : UDPSession}
    {c d e : ℕ} (h : s.keyFields.At K c d) {keys : UDPKeys} (he : K e = some keys)
    (isPrevTag : Bool) :
    (s.recvKeys isPrevTag).1 = keys.recvKey ∧ (s.recvKeys isPrevTag).2 = keys.headerKey ↔
      if isPrevTag = true ∧ 0 < d then d = e + 1 else c = e ∧ d = e := by
  have hcur : s.decAEAD = keys.recvKey ∧ s.hp = keys.headerKey ↔ c = e ∧ d = e :=
    h.current_iff hK he
  cases isPrevTag with
  | false => simpa [UDPSession.recvKeys] using hcur
  | true =>
    rcases h.prev with ⟨rfl, hdec, hhp⟩ | ⟨q, old, rfl, -, hdec, hhp, -⟩
    · have hdec : s.prevDecAEAD = none := hdec
      have hhp : s.prevHp = none := hhp
      simpa [UDPSession.recvKeys, hdec, hhp] using hcur
    · have hprev : s.prevDecAEAD = some keys.recvKey ∧ s.prevHp = some keys.headerKey ↔
          q + 1 = e + 1 := h.previous_iff hK he (Nat.succ_pos q)
      have hdec : s.prevDecAEAD = some old.recvKey := hdec
      have hhp : s.prevHp = some old.headerKey := hhp
      rw [hdec, hhp] at hprev
      simpa [UDPSession.recvKeys, hdec, hhp] using hprev

theorem ServerState.sealing_eq_some_iff {k : ℕ} {call : SendCall} {s' : UDPSession} :
    st.sealing k = some (call, s') ↔ ∃ s tag enc, st.sends k = some call ∧
      st.srv.mux.sessions[call.session]? = some s ∧ call.pc = .keyed tag enc ∧
      { s with tag := tag, encAEAD := enc, closed := false } = s' := by
  simp only [ServerState.sealing, Option.bind_eq_bind, Option.bind_eq_some_iff]
  constructor
  · rintro ⟨call', hcall, s, hs, hpc⟩
    split at hpc
    · rename_i tag enc hkeyed
      simp only [Option.pure_def, Option.some.injEq, Prod.mk.injEq] at hpc
      obtain ⟨rfl, rfl⟩ := hpc
      exact ⟨s, tag, enc, hcall, hs, hkeyed, rfl⟩
    · exact absurd hpc (by simp)
  · rintro ⟨s, tag, enc, hcall, hs, hkeyed, rfl⟩
    exact ⟨call, hcall, s, hs, by rw [hkeyed]; rfl⟩

/-- What `Send` has read, with the header key, is of one epoch exactly when the tag is still the
one it has read: the epochs of the three reads are in order. -/
theorem ofEpoch_iff {K : ℕ → Option UDPKeys} (hK : DistinctKeys K) {s : UDPSession} {c d : ℕ}
    (h : s.keyFields.At K c d) {tag : Tag} {enc : Bytes} (hpc : (SendPc.keyed tag enc).Fits K c) :
    Seal.OfEpoch K ⟨tag, enc, s.hp⟩ ↔ s.tag = tag := by
  obtain ⟨cur, hcur, -, hhp, htag⟩ := h.send
  change s.hp = cur.headerKey at hhp
  change s.tag = cur.sessionTag at htag
  obtain ⟨a, b, keys, keys', hab, hbc, ha, rfl, hb, rfl⟩ := hpc
  constructor
  · rintro ⟨e, ekeys, he, hseal⟩
    simp only [Seal.mk.injEq] at hseal
    obtain rfl : a = e := hK.tag ha he hseal.1
    obtain rfl : c = a := hK.header hcur he (hhp.symm.trans hseal.2.2)
    rw [htag, Option.some.inj (hcur.symm.trans ha)]
  · intro hsame
    obtain rfl : c = a := hK.tag hcur ha (htag.symm.trans hsame)
    obtain rfl : b = c := le_antisymm hbc hab
    obtain rfl := Option.some.inj (hcur.symm.trans ha)
    obtain rfl := Option.some.inj (hcur.symm.trans hb)
    exact ⟨b, cur, hcur, by rw [hhp]⟩

theorem ServerState.coherent_send_iff (hE : DistinctKeys fun p : ℕ × ℕ => E p.1 p.2)
    (h : st.Inv E) (k : ℕ) : st.Coherent E (.send k) ↔ st.InStep E (.send k) := by
  have hkey : ∀ call tag enc s, st.sends k = some call → call.pc = .keyed tag enc →
      st.srv.mux.sessions[call.session]? = some s →
      (Seal.OfEpoch (E call.session) ⟨tag, enc, s.hp⟩ ↔ s.tag = tag) := by
    intro call tag enc s hcall hpc hs
    have hfits := h.sends k call hcall
    rw [hpc] at hfits
    exact ofEpoch_iff (hE.session call.session) (h.sessions _ s hs).at hfits
  constructor
  · intro hco call tag enc s hcall hpc hs
    exact (hkey call tag enc s hcall hpc hs).mp
      (hco call _ (ServerState.sealing_eq_some_iff.mpr ⟨s, tag, enc, hcall, hs, hpc, rfl⟩))
  · intro hin call s' hseal
    obtain ⟨s, tag, enc, hcall, hs, hpc, rfl⟩ := ServerState.sealing_eq_some_iff.mp hseal
    exact (hkey call tag enc s hcall hpc hs).mpr (hin call tag enc s hcall hpc hs)

/-- The fast path ends in the look-up in the table or with a session. -/
theorem UDPMux.recvStep_mru (m : UDPMux) (tag : Tag) (j : ℕ) :
    (∃ pc, (m.recvStep tag .loadMru).1 = .goto pc) ∧
    (∃ pc, (m.recvStep tag (.mruTag j)).1 = .goto pc) ∧
    (∃ pc, (m.recvStep tag (.mruPrevDec j)).1 = .goto pc) ∧
    (∃ pc, (m.recvStep tag (.mruPrevTag j)).1 = .goto pc) := by
  refine ⟨?_, ?_, ?_, ?_⟩
  all_goals dsimp only [UDPMux.recvStep]; (repeat' split) <;> exact ⟨_, rfl⟩

theorem ServerState.coherent_recv_iff (hE : DistinctKeys fun p : ℕ × ℕ => E p.1 p.2)
    (h : st.Inv E) (k : ℕ) : st.Coherent E (.recv k) ↔ st.InStep E (.recv k) := by
  refine forall₂_congr fun call hcall => forall₃_congr fun i e keys => forall_congr' fun hexp => ?_
  have hfits := h.recvs k call hcall
  obtain ⟨packet, pc, since⟩ := call
  obtain ⟨hi, he, htag, -, -⟩ := hexp
  dsimp only at hfits htag ⊢
  obtain ⟨s, hs⟩ : ∃ s, st.srv.mux.sessions[i]? = some s := ⟨_, List.getElem?_eq_getElem hi⟩
  have hmru := st.srv.mux.recvStep_mru (Tag.read packet)
  cases pc with
  | loadMru =>
    obtain ⟨pc, hpc⟩ := (hmru 0).1
    rw [hpc]
  | mruTag j =>
    obtain ⟨pc, hpc⟩ := (hmru j).2.1
    rw [hpc]
  | mruPrevDec j =>
    obtain ⟨pc, hpc⟩ := (hmru j).2.2.1
    rw [hpc]
  | mruPrevTag j =>
    obtain ⟨pc, hpc⟩ := (hmru j).2.2.2
    rw [hpc]
  | tableGet =>
    dsimp only [UDPMux.recvStep]
    rw [htag, h.table i e keys hi he]
    by_cases hle : e ≤ st.settled i
    · simp [hle]
    · simp [hle]
  | sessTag j =>
    obtain rfl := hfits i e keys hi he htag
    dsimp only [UDPMux.recvStep]
    rw [hs]
    by_cases hne : s.tag ≠ Tag.read packet
    · simp [hne]
    · simp [hne]
  | sessPrevTag j =>
    obtain rfl := hfits i e keys hi he htag
    dsimp only [UDPMux.recvStep]
    rw [hs]
  | storeMru j isPrevTag => rfl
  | pickKeys j isPrevTag =>
    obtain rfl := hfits i e keys hi he htag
    dsimp only [UDPMux.recvStep]
    rw [hs]
    exact (and_iff_right rfl).trans
      (UDPSession.recvKeys_iff (hE.session j) (h.sessions j s hs).at he isPrevTag)

/-- **A step of the server is coherent exactly when it is in step with `RatchetEpoch`.** -/
theorem ServerState.coherent_iff (hE : DistinctKeys fun p : ℕ × ℕ => E p.1 p.2) (h : st.Inv E)
    (act : ServerAct) : st.Coherent E act ↔ st.InStep E act := by
  cases act with
  | send k => exact ServerState.coherent_send_iff hE h k
  | recv k => exact ServerState.coherent_recv_iff hE h k
  | ratchetSend i => exact Iff.rfl
  | ratchetRecv i => exact Iff.rfl
  | ratchetTag i => exact Iff.rfl
  | ratchetSet i => exact Iff.rfl
  | sendStart k i payload poolCap draws => exact Iff.rfl
  | recvStart k datagram => exact Iff.rfl

end Inv

end ObsidianVPN.Udp
