import ObsidianVPN.Udp.Isolation

/-!
# The fast path of the UDP look-up

`runOnConn` asks the most recently used session before the table. In runs in which all tags are
distinct, the table should make this fast path invisible, and no closed session should be found.

* `tagsOf`: the tags a session has had in a history, and `ratchets`: how often it was ratcheted;
* `SelectCorrect`: the look-up gives what the table alone gives, and only open sessions;
* `Routed`: the table leads exactly from the tags of the open sessions to their owners;
  **`Routed.selectCorrect`**, `Routed.step`;
* `Tidy`: a session is closed after at most one ratchet that replaced a non-zero tag, and not
  ratcheted once it is closed;
* **`selectCorrect_throughout_iff`**: the look-up is correct throughout a run exactly when every
  operation is tidy. `Close` removes the current and the previous tag only, and takes the tag of
  four zero bytes for "none".
-/

namespace ObsidianVPN.Udp

open Runs

/-! ## The tags of a session -/

/-- The tag that a registration brings into use. -/
def Op.registered : Op → Option Tag
  | .register keys => some keys.sessionTag
  | _ => none

/-- The tag that a ratchet of the session `i` brings into use. -/
def Op.ratcheted (i : ℕ) : Op → Option Tag
  | .ratchet j keys => if j = i then some keys.sessionTag else none
  | _ => none

/-- The tag an operation brings into use. -/
def Op.newTag : Op → Option Tag
  | .register keys => some keys.sessionTag
  | .ratchet _ keys => some keys.sessionTag
  | _ => none

/-- All tags used in a history. -/
def usedTags (ops : List Op) : List Tag := ops.filterMap Op.newTag

/-- How often the session `i` was ratcheted. -/
def ratchets (ops : List Op) (i : ℕ) : ℕ := (ops.filterMap (Op.ratcheted i)).length

/-- The tags the session `i` has had, oldest first. -/
def tagsOf (ops : List Op) (i : ℕ) : List Tag :=
  (ops.filterMap Op.registered)[i]?.toList ++ ops.filterMap (Op.ratcheted i)

theorem length_sessions (ops : List Op) :
    (ops.filterMap Op.registered).length = (run ops).sessions.length := by
  induction ops using List.reverseRecOn with
  | nil => rfl
  | append_singleton ops op ih =>
    rw [run_append_singleton, List.filterMap_append, List.length_append, ih]
    cases op with
    | register keys => simp [UDPMux.step, UDPMux.registerSession, Op.registered]
    | ratchet i keys =>
      simp only [UDPMux.step, UDPMux.ratchetEpoch, Op.registered, List.filterMap_cons,
        List.filterMap_nil, List.length_nil, Nat.add_zero]
      split <;> simp
    | close i =>
      by_cases ho : ∃ s, (run ops).Open i s
      · obtain ⟨s, hs, hc⟩ := ho
        simp only [UDPMux.step, UDPMux.close, hs, hc, Bool.false_eq_true, if_false, Op.registered,
          List.filterMap_cons, List.filterMap_nil, List.length_nil, Nat.add_zero]
        split <;> simp [UDPMux.unregisterSession]
      · have : (run ops).close i = run ops := close_of_closed _ fun s hs => by
          by_contra hc
          exact ho ⟨s, hs, by simpa using hc⟩
        simp [UDPMux.step, this, Op.registered]
    | datagram tag => simp [UDPMux.step, arrive_sessions, Op.registered]

theorem mem_usedTags_of_mem_tagsOf {ops : List Op} {i : ℕ} {t : Tag} (h : t ∈ tagsOf ops i) :
    t ∈ usedTags ops := by
  rcases List.mem_append.mp h with h | h
  · obtain ⟨op, hop, ht⟩ := List.mem_filterMap.mp (List.mem_of_getElem? (Option.mem_toList.mp h))
    exact List.mem_filterMap.mpr ⟨op, hop, by cases op <;> simp_all [Op.registered, Op.newTag]⟩
  · obtain ⟨op, hop, ht⟩ := List.mem_filterMap.mp h
    exact List.mem_filterMap.mpr ⟨op, hop, by cases op <;> simp_all [Op.ratcheted, Op.newTag]⟩

theorem notMem_tagsOf {ops : List Op} {t : Tag} (h : t ∉ usedTags ops) (i : ℕ) : t ∉ tagsOf ops i :=
  fun hm => h (mem_usedTags_of_mem_tagsOf hm)

theorem tagsOf_register (ops : List Op) (keys : UDPKeys) (i : ℕ)
    (hfresh : tagsOf ops (run ops).sessions.length = []) :
    tagsOf (ops ++ [.register keys]) i =
      if i = (run ops).sessions.length then [keys.sessionTag] else tagsOf ops i := by
  rw [← length_sessions] at hfresh ⊢
  simp only [tagsOf, List.append_eq_nil_iff] at hfresh
  simp only [tagsOf, List.filterMap_append, List.filterMap_cons, List.filterMap_nil,
    Op.registered, Op.ratcheted, List.append_nil]
  split
  · rename_i hi
    subst hi
    simp [hfresh.2]
  · rename_i hi
    rcases Nat.lt_or_gt_of_ne hi with hi | hi
    · rw [List.getElem?_append_left hi]
    · rw [List.getElem?_eq_none (by simpa using hi), List.getElem?_eq_none (by omega)]

theorem tagsOf_ratchet (ops : List Op) (j : ℕ) (keys : UDPKeys) (i : ℕ) :
    tagsOf (ops ++ [.ratchet j keys]) i =
      if i = j then tagsOf ops i ++ [keys.sessionTag] else tagsOf ops i := by
  by_cases h : i = j
  · subst h; simp [tagsOf, List.filterMap_cons, Op.registered, Op.ratcheted]
  · simp [tagsOf, List.filterMap_cons, Op.registered, Op.ratcheted, Ne.symm h, h]

theorem tagsOf_of_newTag_none {ops : List Op} {op : Op} (h : op.newTag = none) (i : ℕ) :
    tagsOf (ops ++ [op]) i = tagsOf ops i := by
  cases op with
  | register keys => simp [Op.newTag] at h
  | ratchet j keys => simp [Op.newTag] at h
  | close j => simp [tagsOf, List.filterMap_cons, Op.registered, Op.ratcheted]
  | datagram tag => simp [tagsOf, List.filterMap_cons, Op.registered, Op.ratcheted]

/-! ## The invariant -/

/-- The session's fields show the end of the list of its tags. -/
def UDPSession.Epochs (s : UDPSession) (tags : List Tag) : Prop :=
  (s.prevDecAEAD = none ∧ s.prevTag = .zero ∧ tags = [s.tag]) ∨
  (s.prevDecAEAD.isSome = true ∧ ∃ older, tags = older ++ [s.prevTag, s.tag])

theorem UDPSession.Epochs.tag_mem {s : UDPSession} {tags : List Tag} (h : s.Epochs tags) :
    s.tag ∈ tags := by
  rcases h with ⟨-, -, rfl⟩ | ⟨-, older, rfl⟩ <;> simp

/-- The table leads exactly from the tags of the open sessions to their owners, and the most
recently used session is open. -/
structure Routed (ops : List Op) : Prop where
  fresh : ∀ i, (run ops).sessions.length ≤ i → tagsOf ops i = []
  epochs : ∀ i (s : UDPSession), (run ops).sessions[i]? = some s → s.Epochs (tagsOf ops i)
  nodup : ∀ i, (tagsOf ops i).Nodup
  table : ∀ t i, (run ops).table.get t = some i ↔ t ∈ tagsOf ops i ∧ ∃ s, (run ops).Open i s
  mru : ∀ i, (run ops).mruSession = some i → ∃ s, (run ops).Open i s

/-- The look-up gives what the table alone gives, and only open sessions. -/
def SelectCorrect (m : UDPMux) : Prop :=
  ∀ tag, m.select tag = m.tableSelect tag ∧
    ∀ i isPrevTag, m.select tag = some (i, isPrevTag) → ∃ s, m.Open i s

theorem tableSelect_eq {m : UDPMux} {t : Tag} {i : ℕ} {s : UDPSession}
    (ht : m.table.get t = some i) (hs : m.sessions[i]? = some s) :
    m.tableSelect t = some (i, decide (s.tag ≠ t ∧ s.prevTag = t)) := by
  simp [UDPMux.tableSelect, ht, hs]

theorem get_of_tableSelect {m : UDPMux} {t : Tag} {i : ℕ} {b : Bool}
    (h : m.tableSelect t = some (i, b)) : m.table.get t = some i := by
  simp only [UDPMux.tableSelect, Option.bind_eq_bind, Option.bind_eq_some_iff] at h
  obtain ⟨j, hj, s, -, hr⟩ := h
  simp only [Option.pure_def, Option.some.injEq, Prod.mk.injEq] at hr
  rw [hj, hr.1]

/-- **Routing by owners makes the fast path invisible.** -/
theorem Routed.selectCorrect {ops : List Op} (h : Routed ops) : SelectCorrect (run ops) := by
  have hagree : ∀ tag, (run ops).select tag = (run ops).tableSelect tag := by
    intro tag
    unfold UDPMux.select
    cases hm : (run ops).mruSelect tag with
    | none => rfl
    | some r =>
      simp only [UDPMux.mruSelect, Option.bind_eq_bind, Option.bind_eq_some_iff] at hm
      obtain ⟨i, hi, s, hs, hr⟩ := hm
      have hopen := h.mru i hi
      -- the current and the previous tag of the session lead to it
      split at hr
      · rename_i htag
        have hget := (h.table tag i).mpr ⟨htag ▸ (h.epochs i s hs).tag_mem, hopen⟩
        rw [tableSelect_eq hget hs, ← hr]
        simp [htag]
      · rename_i htag
        split at hr
        · rename_i hprev
          rcases h.epochs i s hs with ⟨hn, -, -⟩ | ⟨-, older, htags⟩
          · simp [hn] at hprev
          · have hget := (h.table tag i).mpr ⟨by rw [htags, ← hprev.2]; simp, hopen⟩
            rw [tableSelect_eq hget hs, ← hr]
            simp [htag, hprev.2]
        · exact absurd hr (by simp)
  refine fun tag => ⟨hagree tag, fun i b hsel => ?_⟩
  rw [hagree tag] at hsel
  exact ((h.table tag i).mp (get_of_tableSelect hsel)).2

theorem routed_nil : Routed [] where
  fresh _ _ := rfl
  epochs i s hs := by simp [newUDPMux] at hs
  nodup _ := List.nodup_nil
  table t i := by simp [tagsOf, newUDPMux]
  mru i hi := by simp [newUDPMux] at hi

/-! ## One operation -/

/-- The operation names sessions that exist. -/
def Op.Names (m : UDPMux) : Op → Prop
  | .ratchet i _ => i < m.sessions.length
  | .close i => i < m.sessions.length
  | _ => True

/-- A session is closed at most one ratchet after its registration, and only if that ratchet
replaced a non-zero tag; a closed session is not ratcheted. -/
def Tidy (ops : List Op) : Op → Prop
  | .close i => ∀ s, (run ops).Open i s →
      ratchets ops i = 0 ∨ (ratchets ops i = 1 ∧ s.prevTag ≠ .zero)
  | .ratchet i _ => ∃ s, (run ops).Open i s
  | _ => True

variable {ops : List Op}

theorem Routed.length_tagsOf {i : ℕ} (hi : i < (run ops).sessions.length) :
    (tagsOf ops i).length = ratchets ops i + 1 := by
  rw [← length_sessions] at hi
  simp [tagsOf, ratchets, List.getElem?_eq_getElem hi]

/-- A tidy session has its tags in the two fields that `Close` reads. -/
theorem Routed.closes_of_mem (h : Routed ops) {i : ℕ} {s : UDPSession} (hs : (run ops).Open i s)
    (htidy : ratchets ops i = 0 ∨ (ratchets ops i = 1 ∧ s.prevTag ≠ .zero)) {t : Tag}
    (ht : t ∈ tagsOf ops i) : s.closes t := by
  have hlen := Routed.length_tagsOf hs.lt
  rcases h.epochs i s hs.1 with ⟨-, -, htags⟩ | ⟨-, older, htags⟩
  · rw [htags, List.mem_singleton] at ht
    exact .inl ht
  · rw [htags, List.length_append] at hlen
    rcases htidy with h0 | ⟨h1, hz⟩
    · simp [h0] at hlen
    · obtain rfl : older = [] := List.length_eq_zero_iff.mp (by
        simpa [h1] using hlen)
      rw [htags] at ht
      simp only [List.nil_append, List.mem_cons, List.not_mem_nil, or_false] at ht
      exact ht.symm.imp id fun ht => ⟨ht, hz⟩

/-- `Close` removes only tags of its session. -/
theorem Routed.mem_of_closes (h : Routed ops) {i : ℕ} {s : UDPSession}
    (hs : (run ops).sessions[i]? = some s) {t : Tag} (ht : s.closes t) : t ∈ tagsOf ops i := by
  rcases h.epochs i s hs with ⟨-, hz, htags⟩ | ⟨-, older, htags⟩ <;>
    rcases ht with rfl | ⟨rfl, hne⟩
  · simp [htags]
  · exact absurd hz hne
  · simp [htags]
  · simp [htags]

/-! The open sessions after an operation. -/

theorem exists_open_registerSession (m : UDPMux) (keys : UDPKeys) (i : ℕ) :
    (∃ s, (m.registerSession keys).Open i s) ↔ i = m.sessions.length ∨ ∃ s, m.Open i s := by
  constructor
  · rintro ⟨s, hs⟩
    rcases Open.registerSession hs with ⟨hs, -⟩ | ⟨hi, -⟩
    · exact .inr ⟨s, hs⟩
    · exact .inl hi
  · rintro (rfl | ⟨s, hs⟩)
    · exact ⟨newUDPSession keys, by simp [UDPMux.registerSession], rfl⟩
    · refine ⟨s, ?_, hs.2⟩
      rw [UDPMux.registerSession, List.getElem?_append_left hs.lt]
      exact hs.1

theorem exists_open_ratchetEpoch {m : UDPMux} {j : ℕ} {s₀ : UDPSession} (hs₀ : m.Open j s₀)
    (keys : UDPKeys) (i : ℕ) : (∃ s, (m.ratchetEpoch j keys).Open i s) ↔ ∃ s, m.Open i s := by
  unfold UDPMux.Open
  rw [sessions_ratchetEpoch m hs₀.1 keys]
  by_cases hi : i = j
  · subst hi
    rw [hs₀.1]
    simp [UDPSession.ratchet]
  · simp [hi]

theorem exists_open_close {m : UDPMux} {j : ℕ} {s₀ : UDPSession} (hs₀ : m.Open j s₀) (i : ℕ) :
    (∃ s, (m.close j).Open i s) ↔ i ≠ j ∧ ∃ s, m.Open i s := by
  constructor
  · rintro ⟨s, hs⟩
    obtain ⟨hi, hs⟩ := Open.close hs₀ hs
    exact ⟨hi, s, hs⟩
  · rintro ⟨hi, s, hs⟩
    exact ⟨s, by rw [sessions_close m hs₀.1 hs₀.2, if_neg hi]; exact hs.1, hs.2⟩

theorem Routed.register (h : Routed ops) {keys : UDPKeys} (hnew : keys.sessionTag ∉ usedTags ops) :
    Routed (ops ++ [.register keys]) := by
  have hfresh := h.fresh _ le_rfl
  have htags := fun i => tagsOf_register ops keys i hfresh
  have hrun : run (ops ++ [.register keys]) = (run ops).registerSession keys := by
    rw [run_append_singleton]; rfl
  have hne := notMem_tagsOf hnew
  refine ⟨fun i hi => ?_, fun i s hs => ?_, fun i => ?_, fun t i => ?_, fun i hi => ?_⟩
  · rw [hrun] at hi
    simp only [UDPMux.registerSession, List.length_append, List.length_singleton] at hi
    rw [htags, if_neg (by omega), h.fresh i (by omega)]
  · rw [htags]
    rw [hrun] at hs
    simp only [UDPMux.registerSession] at hs
    split
    · rename_i hi
      subst hi
      simp only [List.getElem?_concat_length, Option.some.injEq] at hs
      exact .inl (by simp [← hs, newUDPSession])
    · rename_i hi
      rcases Nat.lt_or_gt_of_ne hi with hi | hi
      · rw [List.getElem?_append_left hi] at hs
        exact h.epochs i s hs
      · rw [List.getElem?_eq_none (by simpa using hi)] at hs
        exact absurd hs (by simp)
  · rw [htags]
    split
    · exact List.nodup_singleton _
    · exact h.nodup i
  · rw [hrun, exists_open_registerSession, htags, get_registerSession]
    by_cases ht : t = keys.sessionTag
    · subst ht
      by_cases hi : i = (run ops).sessions.length
      · simp [hi]
      · simp [hi, hne, Ne.symm hi]
    · by_cases hi : i = (run ops).sessions.length
      · simp [ht, hi, h.table, hfresh]
      · simp [ht, hi, h.table]
  · rw [hrun] at hi ⊢
    exact (exists_open_registerSession _ keys i).mpr (.inl (Option.some.inj hi).symm)

theorem Routed.ratchet (h : Routed ops) {j : ℕ} {keys : UDPKeys}
    (hnew : keys.sessionTag ∉ usedTags ops) (hj : ∃ s, (run ops).Open j s) :
    Routed (ops ++ [.ratchet j keys]) := by
  obtain ⟨s₀, hs₀⟩ := hj
  have hsess := sessions_ratchetEpoch (run ops) hs₀.1 keys
  have hrun : run (ops ++ [.ratchet j keys]) = (run ops).ratchetEpoch j keys := by
    rw [run_append_singleton]; rfl
  have hopen := exists_open_ratchetEpoch hs₀ keys
  have hne := notMem_tagsOf hnew
  refine ⟨fun i hi => ?_, fun i s hs => ?_, fun i => ?_, fun t i => ?_, fun i hi => ?_⟩
  · have hlt := hs₀.lt
    have hi' : (run ops).sessions.length ≤ i := by
      simpa [hrun, UDPMux.ratchetEpoch, hs₀.1] using hi
    rw [tagsOf_ratchet, if_neg (by omega), h.fresh i hi']
  · rw [hrun, hsess] at hs
    rw [tagsOf_ratchet]
    by_cases hi : i = j
    · rw [if_pos hi] at hs ⊢
      obtain rfl := Option.some.inj hs
      -- the tag that was current becomes the previous one
      refine .inr ⟨by simp [UDPSession.ratchet], ?_⟩
      rcases h.epochs j s₀ hs₀.1 with ⟨-, -, htags⟩ | ⟨-, older, htags⟩
      · exact ⟨[], by simp [hi, htags, UDPSession.ratchet]⟩
      · exact ⟨older ++ [s₀.prevTag], by simp [hi, htags, UDPSession.ratchet]⟩
    · rw [if_neg hi] at hs ⊢
      exact h.epochs i s hs
  · rw [tagsOf_ratchet]
    split
    · exact List.nodup_append.mpr ⟨h.nodup i, List.nodup_singleton _, by
        rintro a ha b hb rfl
        exact hne i (List.mem_singleton.mp hb ▸ ha)⟩
    · exact h.nodup i
  · rw [hrun, hopen, tagsOf_ratchet, get_ratchetEpoch _ hs₀.1]
    by_cases ht : t = keys.sessionTag
    · subst ht
      by_cases hi : i = j
      · subst hi
        simp only [if_true, List.mem_append, List.mem_singleton, or_true, true_and, true_iff]
        exact ⟨s₀, hs₀⟩
      · simp [hi, hne, Ne.symm hi]
    · by_cases hi : i = j
      · simp [ht, hi, h.table]
      · simp [ht, hi, h.table]
  · rw [hrun] at hi ⊢
    rw [hopen]
    exact h.mru i (by simpa [UDPMux.ratchetEpoch, hs₀.1] using hi)

theorem Routed.close (h : Routed ops) {j : ℕ} {s₀ : UDPSession} (hs₀ : (run ops).Open j s₀)
    (htidy : ratchets ops j = 0 ∨ (ratchets ops j = 1 ∧ s₀.prevTag ≠ .zero)) :
    Routed (ops ++ [.close j]) := by
  have hsess := sessions_close (run ops) hs₀.1 hs₀.2
  have hrun : run (ops ++ [.close j]) = (run ops).close j := by rw [run_append_singleton]; rfl
  have htags : ∀ i, tagsOf (ops ++ [.close j]) i = tagsOf ops i := tagsOf_of_newTag_none rfl
  have hopen := exists_open_close hs₀
  refine ⟨fun i hi => ?_, fun i s hs => ?_, fun i => ?_, fun t i => ?_, fun i hi => ?_⟩
  · rw [htags]
    rw [← length_sessions, List.filterMap_append, List.length_append] at hi
    exact h.fresh i (by rw [← length_sessions]; omega)
  · rw [hrun, hsess] at hs
    rw [htags]
    by_cases hi : i = j
    · rw [if_pos hi] at hs
      obtain rfl := Option.some.inj hs
      exact hi ▸ h.epochs j s₀ hs₀.1
    · rw [if_neg hi] at hs
      exact h.epochs i s hs
  · rw [htags]; exact h.nodup i
  · rw [hrun, htags, hopen, get_close _ hs₀.1 hs₀.2]
    by_cases hc : s₀.closes t
    · -- the tag belonged to the closed session, and to no other open one
      have hget := (h.table t j).mpr ⟨h.mem_of_closes hs₀.1 hc, s₀, hs₀⟩
      refine iff_of_false (by simp [hc]) ?_
      rintro ⟨ht, hi, ho⟩
      have := (h.table t i).mpr ⟨ht, ho⟩
      rw [hget] at this
      exact hi (Option.some.inj this).symm
    · rw [if_neg hc, h.table]
      refine and_congr_right fun ht => (and_iff_right_of_imp fun _ => ?_).symm
      rintro rfl
      exact hc (h.closes_of_mem hs₀ htidy ht)
  · rw [hrun] at hi ⊢
    obtain ⟨hij, hm⟩ := mruSession_close _ hs₀.1 hs₀.2 hi
    exact (hopen i).mpr ⟨hij, h.mru i hm⟩

/-- An operation that at most makes a session of the table the most recently used one. -/
theorem Routed.of_table_eq (h : Routed ops) {op : Op} (hnone : op.newTag = none)
    (hsess : (run (ops ++ [op])).sessions = (run ops).sessions)
    (htable : (run (ops ++ [op])).table = (run ops).table)
    (hmru : ∀ i, (run (ops ++ [op])).mruSession = some i →
      (run ops).mruSession = some i ∨ ∃ tag, (run ops).table.get tag = some i) :
    Routed (ops ++ [op]) := by
  have htags : ∀ i, tagsOf (ops ++ [op]) i = tagsOf ops i := tagsOf_of_newTag_none hnone
  have hopen : ∀ i s, (run (ops ++ [op])).Open i s ↔ (run ops).Open i s := fun i s => by
    rw [UDPMux.Open, hsess, UDPMux.Open]
  constructor
  · simpa only [hsess, htags] using h.fresh
  · simpa only [hsess, htags] using h.epochs
  · simpa only [htags] using h.nodup
  · simpa only [htable, htags, hopen] using h.table
  · intro i hi
    simp only [hopen]
    rcases hmru i hi with hi | ⟨tag, hget⟩
    · exact h.mru i hi
    · exact ((h.table tag i).mp hget).2

theorem Routed.datagram (h : Routed ops) (tag : Tag) : Routed (ops ++ [.datagram tag]) := by
  have hrun : run (ops ++ [.datagram tag]) = (run ops).arrive tag := by
    rw [run_append_singleton]; rfl
  refine h.of_table_eq rfl ?_ ?_ fun i hi => ?_
  · rw [hrun, arrive_sessions]
  · rw [hrun, arrive_table]
  · rw [hrun] at hi
    exact (arrive_mruSession _ _ hi).imp_right fun hget => ⟨tag, hget⟩

theorem Routed.close_again (h : Routed ops) {j : ℕ} (hj : ¬∃ s, (run ops).Open j s) :
    Routed (ops ++ [.close j]) := by
  have hrun : run (ops ++ [.close j]) = run ops := by
    rw [run_append_singleton]
    exact close_of_closed _ fun s hs => by
      by_contra hc
      exact hj ⟨s, hs, by simpa using hc⟩
  exact h.of_table_eq rfl (by rw [hrun]) (by rw [hrun]) fun i hi => .inl (by rwa [hrun] at hi)

/-- **A tidy operation keeps the routing by owners.** -/
theorem Routed.step (h : Routed ops) {op : Op} (hnew : ∀ t, op.newTag = some t → t ∉ usedTags ops)
    (htidy : Tidy ops op) : Routed (ops ++ [op]) := by
  cases op with
  | register keys => exact h.register (hnew _ rfl)
  | ratchet j keys => exact h.ratchet (hnew _ rfl) htidy
  | close j =>
    by_cases hj : ∃ s, (run ops).Open j s
    · obtain ⟨s, hs⟩ := hj
      exact h.close hs (htidy s hs)
    · exact h.close_again hj
  | datagram tag => exact h.datagram tag

/-! ## Untidy operations -/

theorem not_selectCorrect_of_closed {m : UDPMux} {t : Tag} {i : ℕ} {s : UDPSession}
    (ht : m.table.get t = some i) (hs : m.sessions[i]? = some s) (hc : s.closed = true) :
    ¬SelectCorrect m := by
  intro h
  obtain ⟨hagree, hopen⟩ := h t
  rw [tableSelect_eq ht hs] at hagree
  obtain ⟨s', hs', ho⟩ := hopen i _ hagree
  rw [hs] at hs'
  rw [← Option.some.inj hs', hc] at ho
  exact absurd ho (by simp)

/-- An untidy session has a tag that `Close` does not remove. -/
theorem Routed.exists_not_closes (h : Routed ops) {i : ℕ} {s : UDPSession}
    (hs : (run ops).Open i s) (huntidy : ¬(ratchets ops i = 0 ∨
      (ratchets ops i = 1 ∧ s.prevTag ≠ .zero))) : ∃ t ∈ tagsOf ops i, ¬s.closes t := by
  have hlen := Routed.length_tagsOf hs.lt
  have hnodup := h.nodup i
  rcases h.epochs i s hs.1 with ⟨-, -, htags⟩ | ⟨-, older, htags⟩
  · rw [htags, List.length_singleton] at hlen
    exact absurd (.inl (by omega)) huntidy
  rw [htags] at hlen hnodup ⊢
  cases older with
  | nil =>
    have hz : s.prevTag = .zero := by
      by_contra hz
      exact huntidy (.inr ⟨by simpa using hlen.symm, hz⟩)
    refine ⟨s.prevTag, by simp, ?_⟩
    rintro (ht | ⟨-, hne⟩)
    · simp [ht] at hnodup
    · exact hne hz
  | cons t older =>
    refine ⟨t, by simp, ?_⟩
    rintro (rfl | ⟨rfl, -⟩) <;> simp at hnodup

/-- **An operation that is not tidy makes a closed session reachable at once.** -/
theorem Routed.not_selectCorrect (h : Routed ops) {op : Op} (hnames : op.Names (run ops))
    (huntidy : ¬Tidy ops op) : ¬SelectCorrect (run (ops ++ [op])) := by
  rw [run_append_singleton]
  cases op with
  | register keys => exact absurd trivial huntidy
  | datagram tag => exact absurd trivial huntidy
  | ratchet j keys =>
    have hs : (run ops).sessions[j]? = some (run ops).sessions[j] :=
      List.getElem?_eq_getElem hnames
    refine not_selectCorrect_of_closed (t := keys.sessionTag) (i := j)
      (s := ((run ops).sessions[j]).ratchet keys) ?_ ?_ ?_
    · exact (get_ratchetEpoch _ hs _ _).trans (if_pos rfl)
    · exact (sessions_ratchetEpoch _ hs _ _).trans (if_pos rfl)
    · by_contra hc
      exact huntidy ⟨_, hs, by simpa [UDPSession.ratchet] using hc⟩
  | close j =>
    simp only [Tidy, not_forall] at huntidy
    obtain ⟨s, hs, huntidy⟩ := huntidy
    obtain ⟨t, ht, hkeep⟩ := h.exists_not_closes hs huntidy
    refine not_selectCorrect_of_closed (t := t) (i := j) (s := { s with closed := true }) ?_ ?_ rfl
    · rw [UDPMux.step, get_close _ hs.1 hs.2, if_neg hkeep]
      exact (h.table t j).mpr ⟨ht, s, hs⟩
    · exact (sessions_close _ hs.1 hs.2 _).trans (if_pos rfl)

/-! ## Runs -/

theorem newTag_not_mem {pre ops : List Op} {op : Op} (hp : pre ++ [op] <+: ops)
    (hnodup : (usedTags ops).Nodup) {t : Tag} (ht : op.newTag = some t) : t ∉ usedTags pre := by
  have hsub : (usedTags (pre ++ [op])).Nodup := hnodup.sublist (hp.sublist.filterMap _)
  intro hm
  simp only [usedTags, List.filterMap_append, List.filterMap_cons, ht, List.filterMap_nil] at hsub
  exact (List.nodup_append.mp hsub).2.2 t hm t (List.mem_singleton.mpr rfl) rfl

/-- **The look-up agrees with the table and finds open sessions only, throughout a run with
distinct tags, exactly when every operation of the run is tidy.** -/
theorem selectCorrect_throughout_iff (ops : List Op)
    (hnames : EachStep (fun pre op => op.Names (run pre)) ops) (hnodup : (usedTags ops).Nodup) :
    Throughout (fun pre => SelectCorrect (run pre)) ops ↔ EachStep Tidy ops :=
  throughout_iff_eachStep routed_nil
    (fun _ _ hp hinv htidy => hinv.step (fun _ ht => newTag_not_mem hp hnodup ht) htidy)
    (fun _ _ hinv => hinv.selectCorrect)
    (fun pre op hp hinv huntidy => hinv.not_selectCorrect (hnames pre op hp) huntidy)

/-- A session ratcheted twice and closed is still found under its first tag. -/
theorem not_selectCorrect_ratchet_twice :
    (usedTags [.register (keysFor ⟨1, 0, 0, 0⟩), .ratchet 0 (keysFor ⟨2, 0, 0, 0⟩),
      .ratchet 0 (keysFor ⟨3, 0, 0, 0⟩), .close 0]).Nodup ∧
    ¬SelectCorrect (run [.register (keysFor ⟨1, 0, 0, 0⟩), .ratchet 0 (keysFor ⟨2, 0, 0, 0⟩),
      .ratchet 0 (keysFor ⟨3, 0, 0, 0⟩), .close 0]) := by
  refine ⟨by decide, not_selectCorrect_of_closed (t := ⟨1, 0, 0, 0⟩) (i := 0) ?_ rfl rfl⟩
  decide

/-- A run that ratchets once, with a datagram of the old tag before the session is closed. -/
theorem selectCorrect_ratchet_once :
    Throughout (fun pre => SelectCorrect (run pre))
      [.register (keysFor ⟨1, 0, 0, 0⟩), .ratchet 0 (keysFor ⟨2, 0, 0, 0⟩),
        .datagram ⟨1, 0, 0, 0⟩, .close 0] := by
  refine (selectCorrect_throughout_iff _ ?_ (by decide)).mpr ?_
  · simp only [eachStep_cons, eachStep_nil, and_true]
    exact ⟨trivial, Nat.one_pos, trivial, Nat.one_pos⟩
  · simp only [eachStep_cons, eachStep_nil, and_true]
    refine ⟨trivial, ⟨_, rfl, rfl⟩, trivial, ?_⟩
    rintro s ⟨hs, -⟩
    obtain rfl := Option.some.inj hs
    exact .inr (by decide)

end ObsidianVPN.Udp
