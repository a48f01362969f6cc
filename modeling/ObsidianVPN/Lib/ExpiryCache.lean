import Mathlib

/-!
# Caches of seen keys with expiry

A cache maps keys to expiry times. `seenOrAdd k now` reports whether `k` has an entry that is
still live at `now`; if not, it drops the dead entries when the map has grown past `limit`, and
enters `k` until `now + ttl`.

The abstract cache remembers for every key the time of its last admission, and admits a key
again once `ttl` has passed (`admits`). On a clock that does not run backwards the two agree,
whatever `limit` is (**`seenOrAdd_fst`**, **`Sim.seenOrAdd`**): dropping entries is invisible.

* `admittedCalls`: the calls of a sequence that enter their key; `admittedTimes`: the same for one
  key of the abstract cache; **`admittedCalls_key`**: they agree, key by key;
* **`admittedTimes_pairwise`**, **`admittedCalls_pairwise`**: admissions of one key are at least
  `ttl` apart;
* **`admittedTimes_length_le_one_iff`**: a key is admitted at most once exactly when no two of its
  calls are `ttl` or more apart.
-/

namespace ExpiryCache

variable {κ : Type*} [DecidableEq κ]

/-- A cache: how long an entry lives, the size past which dead entries are dropped, and the
expiry times. -/
structure Cache (κ : Type*) where
  ttl : ℕ
  limit : ℕ
  seen : AList (fun _ : κ => ℕ)

/-- The empty cache. -/
def Cache.new (ttl limit : ℕ) : Cache κ := ⟨ttl, limit, ∅⟩

/-- `k` has an entry that expires after `now`. -/
def Cache.live (c : Cache κ) (k : κ) (now : ℕ) : Bool :=
  match c.seen.lookup k with
  | some exp => decide (now < exp)
  | none => false

/-- Drop the entries that have expired at `now`. -/
def Cache.purge (c : Cache κ) (now : ℕ) : Cache κ :=
  { c with seen := ⟨c.seen.entries.filter fun e => decide (now < e.2),
      List.NodupKeys.sublist List.filter_sublist c.seen.nodupKeys⟩ }

/-- Check a key and enter it when it was not seen. -/
def Cache.seenOrAdd (c : Cache κ) (k : κ) (now : ℕ) : Bool × Cache κ :=
  if c.live k now then (true, c)
  else
    let c' := if c.limit < c.seen.entries.length then c.purge now else c
    (false, { c' with seen := c'.seen.insert k (now + c.ttl) })

/-! ## The abstract cache -/

/-- The key may be admitted at `now`: it never was, or `ttl` has passed since it last was. -/
def admits (ttl : ℕ) (last : κ → Option ℕ) (k : κ) (now : ℕ) : Bool :=
  match last k with
  | some t => decide (t + ttl ≤ now)
  | none => true

/-- The cache has a live entry exactly for the keys admitted less than `ttl` ago, now and at
every later time. -/
def Sim (c : Cache κ) (last : κ → Option ℕ) (clock : ℕ) : Prop :=
  ∀ k now, clock ≤ now → c.live k now = !admits c.ttl last k now

theorem sim_new (ttl limit : ℕ) : Sim (Cache.new ttl limit : Cache κ) (fun _ => none) 0 := by
  intro k now _
  simp [Cache.live, Cache.new, admits]

theorem lookup_purge (c : Cache κ) (k : κ) (now : ℕ) :
    (c.purge now).seen.lookup k = (c.seen.lookup k).filter fun exp => decide (now < exp) := by
  apply Option.ext
  intro exp
  have hp := AList.mem_lookup_iff (a := k) (b := exp) (s := (c.purge now).seen)
  have hc := AList.mem_lookup_iff (a := k) (b := exp) (s := c.seen)
  simp only [Option.mem_def] at hp hc
  rw [hp, Option.filter_eq_some_iff, hc]
  simp [Cache.purge]

theorem live_purge (c : Cache κ) (k : κ) {now now' : ℕ} (h : now ≤ now') :
    (c.purge now).live k now' = c.live k now' := by
  simp only [Cache.live, lookup_purge]
  cases hl : c.seen.lookup k with
  | none => rfl
  | some exp =>
    by_cases he : now < exp
    · simp [Option.filter, he]
    · simp only [Option.filter, he, decide_false]
      symm; simpa using (by omega : exp ≤ now')

theorem live_insert (c : Cache κ) (k k' : κ) (exp now : ℕ) :
    ({ c with seen := c.seen.insert k exp } : Cache κ).live k' now =
      if k' = k then decide (now < exp) else c.live k' now := by
  by_cases h : k' = k
  · subst h; simp [Cache.live]
  · simp [Cache.live, h, AList.lookup_insert_ne h]

/-- **One call agrees with the abstract cache.** -/
theorem seenOrAdd_fst {c : Cache κ} {last : κ → Option ℕ} {clock : ℕ} (h : Sim c last clock)
    (k : κ) {now : ℕ} (hn : clock ≤ now) :
    (c.seenOrAdd k now).1 = !admits c.ttl last k now := by
  rw [← h k now hn]
  unfold Cache.seenOrAdd
  split <;> simp_all

theorem seenOrAdd_ttl (c : Cache κ) (k : κ) (now : ℕ) : (c.seenOrAdd k now).2.ttl = c.ttl := by
  unfold Cache.seenOrAdd
  split
  · rfl
  · simp only; split <;> rfl

/-- **A call keeps the agreement**, with the key's admission time updated when it is admitted. -/
theorem Sim.seenOrAdd {c : Cache κ} {last : κ → Option ℕ} {clock : ℕ} (h : Sim c last clock)
    (k : κ) {now : ℕ} (hn : clock ≤ now) :
    Sim (c.seenOrAdd k now).2
      (if admits c.ttl last k now then Function.update last k (some now) else last) now := by
  intro k' now' hn'
  rw [seenOrAdd_ttl]
  have hk := h k now hn
  unfold Cache.seenOrAdd
  by_cases ha : admits c.ttl last k now
  · rw [ha] at hk
    simp only [hk, ha, Bool.not_true, Bool.false_eq_true, if_false, if_true]
    -- dropping the dead entries first changes no later answer
    have hd : ∀ c' : Cache κ, (c' = c ∨ c' = c.purge now) →
        c'.live k' now' = c.live k' now' := by
      rintro c' (rfl | rfl)
      · rfl
      · exact live_purge c k' hn'
    rw [live_insert, hd _ (by split <;> simp)]
    by_cases hkk : k' = k
    · subst hkk
      simp only [if_true, admits, Function.update_self]
      rw [← decide_not]; simp
    · simp only [hkk, if_false, admits, Function.update_of_ne hkk]
      exact h k' now' (hn.trans hn')
  · simp only [Bool.not_eq_true] at ha
    rw [ha] at hk
    simp only [hk, ha, Bool.not_false, if_true, Bool.false_eq_true, if_false]
    exact h k' now' (hn.trans hn')

/-! ## Callers that read the clock early

A caller may read the clock, wait, and call the cache when others have called it with later
times. -/

/-- The cache knows that `k` was entered at `t`, or `ttl` has passed since. -/
def Remembers (c : Cache κ) (k : κ) (t clock : ℕ) : Prop :=
  (∃ exp, c.seen.lookup k = some exp ∧ t + c.ttl ≤ exp) ∨ t + c.ttl ≤ clock

theorem Remembers.mono {c : Cache κ} {k : κ} {t clock clock' : ℕ} (h : Remembers c k t clock)
    (hle : clock ≤ clock') : Remembers c k t clock' :=
  h.imp_right fun hlate => hlate.trans hle

theorem Remembers.purge {c : Cache κ} {k : κ} {t clock now : ℕ} (h : Remembers c k t clock)
    (hnow : now ≤ clock) : Remembers (c.purge now) k t clock := by
  rcases h with ⟨exp, hexp, hle⟩ | hlate
  · by_cases hlive : now < exp
    · exact .inl ⟨exp, by rw [lookup_purge, hexp]; simp [Option.filter, hlive], hle⟩
    · exact .inr (hle.trans ((not_lt.mp hlive).trans hnow))
  · exact .inr hlate

/-- **A key that is entered again** was entered at least `ttl` before the present. -/
theorem Remembers.of_admitted {c : Cache κ} {k : κ} {t clock now : ℕ} (h : Remembers c k t clock)
    (hnow : now ≤ clock) (hnew : (c.seenOrAdd k now).1 = false) : t + c.ttl ≤ clock := by
  rcases h with ⟨exp, hexp, hle⟩ | hlate
  · have hdead : c.live k now = false := by
      by_contra hlive
      simp [Cache.seenOrAdd, Bool.not_eq_false _ ▸ hlive] at hnew
    have hexpired : exp ≤ now := by simpa [Cache.live, hexp] using hdead
    exact hle.trans (hexpired.trans hnow)
  · exact hlate

/-- **A call keeps what the cache remembers**, whatever time the caller has read. -/
theorem Remembers.seenOrAdd {c : Cache κ} {k k' : κ} {t clock now : ℕ} (h : Remembers c k t clock)
    (hnow : now ≤ clock) : Remembers (c.seenOrAdd k' now).2 k t clock := by
  by_cases hnew : (c.seenOrAdd k' now).1 = false
  · by_cases hk : k = k'
    · subst hk
      exact .inr (by rw [seenOrAdd_ttl]; exact h.of_admitted hnow hnew)
    · unfold Cache.seenOrAdd at hnew ⊢
      split at hnew
      · cases hnew
      · rename_i hdead
        rw [if_neg hdead]
        have hkept : Remembers (if c.limit < c.seen.entries.length then c.purge now else c) k t
            clock := by
          split
          · exact h.purge hnow
          · exact h
        refine hkept.imp_left ?_
        rintro ⟨exp, hexp, hle⟩
        exact ⟨exp, by rw [← hexp]; exact AList.lookup_insert_ne hk, hle⟩
  · unfold Cache.seenOrAdd at hnew ⊢
    split
    · exact h
    · rename_i hdead
      simp [hdead] at hnew

theorem remembers_admitted {c : Cache κ} {k : κ} {clock now : ℕ}
    (hnew : (c.seenOrAdd k now).1 = false) : Remembers (c.seenOrAdd k now).2 k now clock := by
  unfold Cache.seenOrAdd at hnew ⊢
  split at hnew
  · cases hnew
  · rename_i hdead
    rw [if_neg hdead]
    refine .inl ⟨now + c.ttl, AList.lookup_insert _, ?_⟩
    show now + (if c.limit < c.seen.entries.length then c.purge now else c).ttl ≤ _
    split <;> exact le_rfl

/-! ## Sequences of calls -/

/-- The calls of a sequence that enter their key. -/
def admittedCalls (c : Cache κ) : List (κ × ℕ) → List (κ × ℕ)
  | [] => []
  | (k, now) :: l =>
    let r := c.seenOrAdd k now
    if r.1 then admittedCalls r.2 l else (k, now) :: admittedCalls r.2 l

/-- The admissions of one key called at the given times, last admitted at `last`. -/
def admittedTimes (ttl : ℕ) : Option ℕ → List ℕ → List ℕ
  | _, [] => []
  | last, t :: ts =>
    if admits ttl (fun _ : Unit => last) () t then t :: admittedTimes ttl (some t) ts
    else admittedTimes ttl last ts

/-- The times of the calls for `k`. -/
def timesOf (k : κ) (l : List (κ × ℕ)) : List ℕ := (l.filter fun p => decide (p.1 = k)).map Prod.snd

theorem timesOf_cons (k k' : κ) (now : ℕ) (l : List (κ × ℕ)) :
    timesOf k ((k', now) :: l) = if k' = k then now :: timesOf k l else timesOf k l := by
  unfold timesOf
  by_cases h : k' = k <;> simp [h]

/-- **The admissions of a key are those of the abstract cache**, on a clock that does not run
backwards. -/
theorem admittedCalls_key (k : κ) (l : List (κ × ℕ)) {c : Cache κ} {last : κ → Option ℕ}
    {clock : ℕ} (h : Sim c last clock) (hl : (clock :: l.map Prod.snd).Pairwise (· ≤ ·)) :
    timesOf k (admittedCalls c l) = admittedTimes c.ttl (last k) (timesOf k l) := by
  induction l generalizing c last clock with
  | nil => rfl
  | cons p l ih =>
    obtain ⟨k', now⟩ := p
    simp only [List.map_cons] at hl
    have hn : clock ≤ now := List.rel_of_pairwise_cons hl List.mem_cons_self
    have hrest := ih (h.seenOrAdd k' hn) hl.of_cons
    rw [seenOrAdd_ttl] at hrest
    have hfst := seenOrAdd_fst h k' hn
    rw [timesOf_cons, admittedCalls]
    by_cases ha : admits c.ttl last k' now
    · simp only [ha, if_true, Bool.not_true] at hrest hfst
      simp only [hfst, Bool.false_eq_true, if_false, timesOf_cons]
      by_cases hk : k' = k
      · subst hk
        simp only [if_true, admittedTimes]
        rw [hrest, Function.update_self, if_pos]
        exact ha
      · simp only [hk, if_false]
        rw [hrest, Function.update_of_ne (Ne.symm hk)]
    · simp only [ha, Bool.false_eq_true, if_false, Bool.not_false] at hrest hfst
      simp only [hfst, if_true, hrest]
      by_cases hk : k' = k
      · subst hk
        simp only [if_true, admittedTimes]
        rw [if_neg]
        exact ha
      · simp only [hk, if_false]

theorem admittedTimes_eq_nil_iff (ttl t : ℕ) (ts : List ℕ) :
    admittedTimes ttl (some t) ts = [] ↔ ∀ u ∈ ts, u < t + ttl := by
  induction ts with
  | nil => simp [admittedTimes]
  | cons u ts ih =>
    simp only [admittedTimes, admits, List.forall_mem_cons]
    by_cases hu : t + ttl ≤ u
    · simp [hu, Nat.not_lt.mpr hu]
    · simp [hu, ih, Nat.lt_of_not_le hu]

theorem admittedTimes_sublist (ttl : ℕ) (last : Option ℕ) (ts : List ℕ) :
    (admittedTimes ttl last ts).Sublist ts := by
  induction ts generalizing last with
  | nil => exact List.Sublist.refl _
  | cons t ts ih =>
    rw [admittedTimes]
    split
    · exact (ih _).cons_cons t
    · exact (ih _).cons t

/-- **Admissions of one key are at least `ttl` apart.** -/
theorem admittedTimes_pairwise (ttl : ℕ) (last : Option ℕ) (ts : List ℕ)
    (hs : ts.Pairwise (· ≤ ·)) :
    (admittedTimes ttl last ts).Pairwise fun a b => a + ttl ≤ b := by
  -- the first admission after `t` comes at `t + ttl` or later, and the later ones after it
  have hge : ∀ (us : List ℕ) (t : ℕ), us.Pairwise (· ≤ ·) →
      ∀ u ∈ admittedTimes ttl (some t) us, t + ttl ≤ u := by
    intro us
    induction us with
    | nil => intro t _ u hu; simp [admittedTimes] at hu
    | cons v us ih =>
      intro t hp u hu
      rw [admittedTimes] at hu
      by_cases hv : t + ttl ≤ v
      · rw [if_pos (by simpa [admits] using hv)] at hu
        rcases List.mem_cons.mp hu with rfl | hu
        · exact hv
        · exact hv.trans (List.rel_of_pairwise_cons hp ((admittedTimes_sublist _ _ _).subset hu))
      · rw [if_neg (by simpa [admits] using hv)] at hu
        exact ih t hp.of_cons u hu
  induction ts generalizing last with
  | nil => exact List.Pairwise.nil
  | cons t ts ih =>
    rw [admittedTimes]
    split
    · exact List.pairwise_cons.mpr ⟨fun u hu => hge ts t hs.of_cons u hu, ih _ hs.of_cons⟩
    · exact ih _ hs.of_cons

/-- **Calls that enter the same key are at least `ttl` apart**, whatever lies between them. -/
theorem admittedCalls_pairwise (ttl limit : ℕ) (l : List (κ × ℕ))
    (hl : (l.map Prod.snd).Pairwise (· ≤ ·)) :
    (admittedCalls (Cache.new ttl limit) l).Pairwise fun p q => p.1 = q.1 → p.2 + ttl ≤ q.2 := by
  rw [List.pairwise_iff_forall_sublist]
  intro p q hpq hkey
  have htimes := admittedTimes_pairwise ttl none (timesOf p.1 l)
    (hl.sublist (List.filter_sublist.map Prod.snd))
  have hcalls := admittedCalls_key p.1 l (sim_new ttl limit)
    (List.pairwise_cons.mpr ⟨fun _ _ => Nat.zero_le _, hl⟩)
  have hsub : [p.2, q.2].Sublist (timesOf p.1 (admittedCalls (Cache.new ttl limit) l)) := by
    simpa [timesOf, hkey] using (hpq.filter fun r => decide (r.1 = p.1)).map Prod.snd
  rw [hcalls] at hsub
  exact List.pairwise_iff_forall_sublist.mp htimes hsub

/-- **A key is admitted at most once exactly when no two of its calls are `ttl` or more apart.** -/
theorem admittedTimes_length_le_one_iff (ttl : ℕ) (ts : List ℕ) (hs : ts.Pairwise (· ≤ ·)) :
    (admittedTimes ttl none ts).length ≤ 1 ↔ ts.Pairwise fun a b => b < a + ttl := by
  cases ts with
  | nil => simp [admittedTimes]
  | cons t ts =>
    rw [admittedTimes, if_pos (by rfl), List.length_cons, List.pairwise_cons]
    have h1 : (admittedTimes ttl (some t) ts).length + 1 ≤ 1 ↔ ∀ u ∈ ts, u < t + ttl := by
      rw [← admittedTimes_eq_nil_iff, ← List.length_eq_zero_iff]; omega
    rw [h1]
    refine ⟨fun h => ⟨h, ?_⟩, fun h => h.1⟩
    refine List.Pairwise.imp_of_mem (fun {a b} ha hb _ => ?_) hs.of_cons
    have := List.rel_of_pairwise_cons hs ha
    have := h b hb
    omega

end ExpiryCache
