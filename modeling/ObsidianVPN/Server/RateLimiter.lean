import ObsidianVPN.Lib.Netip
import ObsidianVPN.Lib.TokenBucket

/-!
# The limit per address

`IPRateLimiter.Allow` keeps a token bucket for each address, counted in nanoseconds, and deletes the
entries that have been idle for more than ten seconds. An address without an entry has a full bucket,
so the deletion is harmless when ten seconds fill the bucket, that is when `burst ≤ 10 * rate`; then
the limiter is a token bucket of the library for every address. For other parameters an address that
waits for the deletion gets its burst back too early.

* `IPRateLimiter.allow`, `IPRateLimiter.operations`: a call, and the exact values it computes;
* `IPRateLimiter.Inv`, `inv_allow`: an entry is younger than eleven seconds when it is used, hence
  nothing overflows; `operations_fit`;
* `allow_eq_take`, **`admittedTimes_eq`**: the limiter is a token bucket;
* `admittedTimes_bursts`: the run in which a burst follows the deletion of an empty bucket;
* **`allow_bounded_iff`**: the limiter keeps its bound exactly if `burst ≤ 10 * rate`.
-/

namespace ObsidianVPN.Server

open ByteStr TokenBucket

/-! ## The limiter

A time is a number of nanoseconds. -/

/-- `time.Second`. -/
def timeSecond : ℤ := 10 ^ 9

/-- `time.Time.Sub`, which does not leave the range of a `Duration`. -/
def timeSub (t u : ℤ) : ℤ := max (-2 ^ 63) (min (2 ^ 63 - 1) (t - u))

/-- The limiter with its entries, one for each address of `A` that has a state. -/
structure IPRateLimiter (A : Type*) where
  ratePerSecond : ℤ
  burst : ℤ
  cleanupInterval : ℤ
  entryTTL : ℤ
  lastCleanup : ℤ
  entries : A → Option Entry

variable {A : Type*}

def newIPRateLimiter (ratePerSecond burst now : ℤ) : IPRateLimiter A where
  ratePerSecond := if ratePerSecond ≤ 0 then 20 else ratePerSecond
  burst := if burst ≤ 0 then 5 else burst
  cleanupInterval := timeSecond
  entryTTL := 10 * timeSecond
  lastCleanup := now
  entries := fun _ => none

namespace IPRateLimiter

/-- The deletion of idle entries at the start of a call. -/
def cleanup (r : IPRateLimiter A) (now : ℤ) : IPRateLimiter A :=
  if r.cleanupInterval ≤ timeSub now r.lastCleanup then
    { r with
      entries := fun ip => (r.entries ip).filter fun entry => timeSub now entry.last ≤ r.entryTTL
      lastCleanup := now }
  else r

def maxTokens (r : IPRateLimiter A) : ℤ := wrap64 (r.burst * timeSecond)

/-- The tokens of an entry before the limit is applied. -/
def refilled (r : IPRateLimiter A) (entry : Entry) (now : ℤ) : ℤ :=
  wrap64 (entry.tokens + wrap64 (timeSub now entry.last * r.ratePerSecond))

variable [DecidableEq A]

/-- `Allow` at the time `now`; `none` is an address that is not valid. -/
def allow (r : IPRateLimiter A) (addr : Option A) (now : ℤ) : Bool × IPRateLimiter A :=
  match addr with
  | none => (true, r)
  | some addr =>
    let r := r.cleanup now
    let cost := timeSecond
    match r.entries addr with
    | none =>
      let entry : Entry := ⟨now, wrap64 (r.maxTokens - cost)⟩
      (true, { r with entries := Function.update r.entries addr (some entry) })
    | some entry =>
      let tokens := r.refilled entry now
      let tokens := if tokens > r.maxTokens then r.maxTokens else tokens
      if tokens < cost then
        (false, { r with entries := Function.update r.entries addr (some ⟨now, tokens⟩) })
      else
        let entry : Entry := ⟨now, wrap64 (tokens - cost)⟩
        (true, { r with entries := Function.update r.entries addr (some entry) })

/-- The exact results of the operations on 64-bit integers of a call, before they are wrapped. -/
def operations (r : IPRateLimiter A) (addr : Option A) (now : ℤ) : List ℤ :=
  match addr with
  | none => []
  | some addr =>
    let r := r.cleanup now
    match r.entries addr with
    | none => [r.burst * timeSecond, r.maxTokens - timeSecond]
    | some entry =>
      let gain := timeSub now entry.last * r.ratePerSecond
      let tokens := min r.maxTokens (r.refilled entry now)
      [r.burst * timeSecond, gain, entry.tokens + wrap64 gain] ++
        if tokens < timeSecond then [] else [tokens - timeSecond]

/-! ## Runs -/

/-- The times at which calls for `a` are admitted. -/
def admittedTimes (a : A) (r : IPRateLimiter A) : List (ℤ × Option A) → List ℤ
  | [] => []
  | (now, addr) :: calls =>
    let res := r.allow addr now
    if addr = some a ∧ res.1 then now :: admittedTimes a res.2 calls
    else admittedTimes a res.2 calls

/-- No operation of a run leaves the range of an `int64`. -/
def NoOverflow (r : IPRateLimiter A) : List (ℤ × Option A) → Prop
  | [] => True
  | (now, addr) :: calls =>
    (∀ v ∈ r.operations addr now, -2 ^ 63 ≤ v ∧ v < 2 ^ 63) ∧ NoOverflow (r.allow addr now).2 calls

end IPRateLimiter

/-- The calls come one after another, the first not before the time `created`. -/
def Ordered (created : ℤ) (calls : List (ℤ × Option A)) : Prop :=
  (created :: calls.map Prod.fst).Pairwise (· ≤ ·)

open Classical in
/-- At most `burst + rate * T` of the times lie in an interval of `T` seconds. -/
def Limited (rate burst : ℤ) (times : List ℤ) : Prop :=
  ∀ start T : ℝ, 0 ≤ T →
    (times.countP fun t : ℤ => start ≤ t / 10 ^ 9 ∧ t / 10 ^ 9 ≤ start + T : ℕ) ≤ burst + rate * T

/-! ## What holds between the calls -/

theorem timeSub_eq {t u : ℤ} (h₁ : u ≤ t) (h₂ : t - u < 2 ^ 63) : timeSub t u = t - u := by
  unfold timeSub
  omega

/-- A comparison with a `Duration` does not see that the difference has been cut. -/
theorem le_timeSub_iff {d t u : ℤ} (h₁ : -2 ^ 63 < d) (h₂ : d < 2 ^ 63) :
    d ≤ timeSub t u ↔ d ≤ t - u := by
  unfold timeSub
  omega

theorem timeSub_le_iff {d t u : ℤ} (h₁ : -2 ^ 63 ≤ d) (h₂ : d < 2 ^ 63 - 1) :
    timeSub t u ≤ d ↔ t - u ≤ d := by
  unfold timeSub
  omega

namespace IPRateLimiter

/-- The parameters are those of the constructor, the tokens of an entry are in range, and no entry
was idle for more than ten seconds at the last cleanup. -/
structure Inv (rate burst clock : ℤ) (r : IPRateLimiter A) : Prop where
  rate_eq : r.ratePerSecond = rate
  burst_eq : r.burst = burst
  interval_eq : r.cleanupInterval = timeSecond
  ttl_eq : r.entryTTL = 10 * timeSecond
  cleanup_le : r.lastCleanup ≤ clock
  last_le : ∀ a e, r.entries a = some e → e.last ≤ clock
  young : ∀ a e, r.entries a = some e → r.lastCleanup - e.last ≤ 10 * timeSecond
  tokens_nonneg : ∀ a e, r.entries a = some e → 0 ≤ e.tokens
  tokens_le : ∀ a e, r.entries a = some e → e.tokens ≤ burst * timeSecond

variable {rate burst clock now : ℤ} {r : IPRateLimiter A}

theorem inv_new (hrate : 1 ≤ rate) (hburst : 1 ≤ burst) (created : ℤ) :
    Inv rate burst created (newIPRateLimiter rate burst created : IPRateLimiter A) where
  rate_eq := if_neg (by omega)
  burst_eq := if_neg (by omega)
  interval_eq := rfl
  ttl_eq := rfl
  cleanup_le := le_rfl
  last_le _ _ he := nomatch he
  young _ _ he := nomatch he
  tokens_nonneg _ _ he := nomatch he
  tokens_le _ _ he := nomatch he

theorem Inv.wait (h : Inv rate burst clock r) (hnow : clock ≤ now) : Inv rate burst now r where
  __ := h
  cleanup_le := h.cleanup_le.trans hnow
  last_le a e he := (h.last_le a e he).trans hnow

/-- A cleanup deletes an entry exactly if it is due and the entry has been idle for too long. -/
theorem cleanup_entries (h : Inv rate burst clock r) (now : ℤ) (a : A) :
    (r.cleanup now).entries a = r.entries a ∨
      (r.cleanup now).entries a = none ∧
        ∃ e, r.entries a = some e ∧ 10 * timeSecond < now - e.last := by
  unfold cleanup
  split
  · cases he : r.entries a with
    | none => exact .inl (by simp [he])
    | some e =>
      by_cases hidle : timeSub now e.last ≤ r.entryTTL
      · exact .inl (by simp [he, Option.filter, hidle])
      · refine .inr ⟨by simp [he, Option.filter, hidle], e, rfl, ?_⟩
        rw [h.ttl_eq, timeSub_le_iff (by norm_num [timeSecond]) (by norm_num [timeSecond])] at hidle
        omega
  · exact .inl rfl

theorem inv_cleanup (h : Inv rate burst clock r) (hnow : clock ≤ now) :
    Inv rate burst now (r.cleanup now) := by
  unfold cleanup
  split
  · have hkept : ∀ a e, ((r.entries a).filter fun e => timeSub now e.last ≤ r.entryTTL) = some e →
        r.entries a = some e ∧ now - e.last ≤ 10 * timeSecond := by
      intro a e he
      obtain ⟨he, hidle⟩ := Option.filter_eq_some_iff.mp he
      rw [decide_eq_true_iff, h.ttl_eq,
        timeSub_le_iff (by norm_num [timeSecond]) (by norm_num [timeSecond])] at hidle
      exact ⟨he, hidle⟩
    exact
      { rate_eq := h.rate_eq
        burst_eq := h.burst_eq
        interval_eq := h.interval_eq
        ttl_eq := h.ttl_eq
        cleanup_le := le_rfl
        last_le := fun a e he => (h.last_le a e (hkept a e he).1).trans hnow
        young := fun a e he => (hkept a e he).2
        tokens_nonneg := fun a e he => h.tokens_nonneg a e (hkept a e he).1
        tokens_le := fun a e he => h.tokens_le a e (hkept a e he).1 }
  · exact h.wait hnow

/-- The last cleanup is less than a second ago when the entries are read. -/
theorem cleanup_recent (h : Inv rate burst clock r) :
    now - (r.cleanup now).lastCleanup < timeSecond := by
  unfold cleanup
  split
  · simp [timeSecond]
  · rename_i hdue
    rw [h.interval_eq, le_timeSub_iff (by norm_num [timeSecond]) (by norm_num [timeSecond])] at hdue
    omega

section Call

variable {a : A} {e : Entry}

/-- What an entry gains until it is read is far from the limits of an `int64`. -/
theorem gain_bounds (h : Inv rate burst now r) (hrecent : now - r.lastCleanup < timeSecond)
    (hrate : 1 ≤ rate ∧ rate ≤ 10 ^ 6) (he : r.entries a = some e) :
    timeSub now e.last * r.ratePerSecond = rate * (now - e.last) ∧
      0 ≤ rate * (now - e.last) ∧ rate * (now - e.last) ≤ 10 ^ 6 * (11 * timeSecond) := by
  have hlast := h.last_le a e he
  have hyoung := h.young a e he
  simp only [timeSecond] at hrecent hyoung ⊢
  have hsub : timeSub now e.last = now - e.last := timeSub_eq hlast (by omega)
  refine ⟨by rw [hsub, h.rate_eq, mul_comm], mul_nonneg (by omega) (by omega), ?_⟩
  exact mul_le_mul hrate.2 (by omega) (by omega) (by norm_num)

theorem maxTokens_eq (h : Inv rate burst clock r) (hburst : 1 ≤ burst ∧ burst ≤ 10 ^ 6) :
    r.maxTokens = burst * timeSecond := by
  unfold maxTokens
  rw [h.burst_eq]
  exact wrap64_of_bounds (by simp only [timeSecond]; omega) (by simp only [timeSecond]; omega)

theorem refilled_eq (h : Inv rate burst now r) (hrecent : now - r.lastCleanup < timeSecond)
    (hrate : 1 ≤ rate ∧ rate ≤ 10 ^ 6) (hburst : burst ≤ 10 ^ 6) (he : r.entries a = some e) :
    r.refilled e now = e.tokens + rate * (now - e.last) := by
  obtain ⟨hgain, hlow, hhigh⟩ := gain_bounds h hrecent hrate he
  have htokens := h.tokens_nonneg a e he
  have htokens' := h.tokens_le a e he
  simp only [timeSecond] at hhigh htokens'
  have hwrap : wrap64 (rate * (now - e.last)) = rate * (now - e.last) :=
    wrap64_of_bounds (by omega) (by omega)
  rw [refilled, hgain, hwrap, wrap64_of_bounds (by omega) (by omega)]

variable [DecidableEq A]

/-- **A call is a call of the token bucket**, after the cleanup. -/
theorem allow_eq_take (h : Inv rate burst clock r) (hnow : clock ≤ now)
    (hrate : 1 ≤ rate ∧ rate ≤ 10 ^ 6) (hburst : 1 ≤ burst ∧ burst ≤ 10 ^ 6) (a : A) :
    r.allow (some a) now =
      (admits (burst * timeSecond) rate timeSecond ((r.cleanup now).entries a) now,
        { r.cleanup now with
          entries := Function.update (r.cleanup now).entries a
            (some (take (burst * timeSecond) rate timeSecond
              ((r.cleanup now).entries a) now)) }) := by
  have hinv := inv_cleanup h hnow
  have hmax := maxTokens_eq hinv hburst
  unfold allow
  cases he : (r.cleanup now).entries a with
  | none =>
    have hpaid : admits (burst * timeSecond) rate timeSecond none now = true :=
      decide_eq_true (by simp only [level, timeSecond]; omega)
    have hwrap : wrap64 (burst * timeSecond - timeSecond) = burst * timeSecond - timeSecond :=
      wrap64_of_bounds (by simp only [timeSecond]; omega) (by simp only [timeSecond]; omega)
    simp only [he, hmax, hwrap, take, hpaid, level, if_true]
  | some e =>
    have hfull := refilled_eq hinv (cleanup_recent h) hrate hburst.2 he
    have hlevel : (if (r.cleanup now).refilled e now > (r.cleanup now).maxTokens
        then (r.cleanup now).maxTokens else (r.cleanup now).refilled e now)
        = level (burst * timeSecond) rate (some e) now := by
      rw [hmax, hfull, level]
      split <;> omega
    have hcap := level_le (burst * timeSecond) rate (some e) now
    simp only [he, hlevel]
    split
    · rename_i hfew
      have hrefused : admits (burst * timeSecond) rate timeSecond (some e) now = false :=
        decide_eq_false (by omega)
      simp [take, hrefused]
    · rename_i hmany
      have hpaid : admits (burst * timeSecond) rate timeSecond (some e) now = true :=
        decide_eq_true (by omega)
      have hwrap : wrap64 (level (burst * timeSecond) rate (some e) now - timeSecond)
          = level (burst * timeSecond) rate (some e) now - timeSecond := by
        simp only [timeSecond] at hmany hcap ⊢
        exact wrap64_of_bounds (by omega) (by omega)
      simp [take, hpaid, hwrap]

/-- A call changes one entry; the others are those of the cleanup. -/
theorem forall_update {p : Entry → Prop} {entries : A → Option Entry} {a : A} {new : Entry}
    (hnew : p new) (hold : ∀ b e, entries b = some e → p e) :
    ∀ b e, Function.update entries a (some new) b = some e → p e := by
  intro b e he
  rw [Function.update_apply] at he
  split at he
  · exact Option.some.inj he ▸ hnew
  · exact hold b e he

theorem inv_allow (h : Inv rate burst clock r) (hnow : clock ≤ now)
    (hrate : 1 ≤ rate ∧ rate ≤ 10 ^ 6) (hburst : 1 ≤ burst ∧ burst ≤ 10 ^ 6) (addr : Option A) :
    Inv rate burst now (r.allow addr now).2 := by
  cases addr with
  | none => exact h.wait hnow
  | some a =>
    have hinv := inv_cleanup h hnow
    have hcap : 0 ≤ burst * timeSecond := mul_nonneg (by omega) (by norm_num [timeSecond])
    have hlevel : 0 ≤ level (burst * timeSecond) rate ((r.cleanup now).entries a) now := by
      cases he : (r.cleanup now).entries a with
      | none => exact hcap
      | some e =>
        have hgain := (gain_bounds hinv (cleanup_recent h) hrate he).2.1
        exact le_min hcap (add_nonneg (hinv.tokens_nonneg a e he) hgain)
    rw [allow_eq_take h hnow hrate hburst a]
    exact
      { rate_eq := hinv.rate_eq
        burst_eq := hinv.burst_eq
        interval_eq := hinv.interval_eq
        ttl_eq := hinv.ttl_eq
        cleanup_le := hinv.cleanup_le
        last_le := forall_update le_rfl hinv.last_le
        young := forall_update (p := fun e => (r.cleanup now).lastCleanup - e.last ≤ 10 * timeSecond)
          ((sub_nonpos.mpr hinv.cleanup_le).trans (by norm_num [timeSecond])) hinv.young
        tokens_nonneg := forall_update (tokens_take_nonneg hlevel) hinv.tokens_nonneg
        tokens_le := forall_update (tokens_take_le (by norm_num [timeSecond]) _ now)
          hinv.tokens_le }

/-! ## No overflow -/

omit [DecidableEq A] in
theorem operations_fit (h : Inv rate burst clock r) (hnow : clock ≤ now)
    (hrate : 1 ≤ rate ∧ rate ≤ 10 ^ 6) (hburst : 1 ≤ burst ∧ burst ≤ 10 ^ 6) (addr : Option A) :
    ∀ v ∈ r.operations addr now, -2 ^ 63 ≤ v ∧ v < 2 ^ 63 := by
  cases addr with
  | none => exact List.forall_mem_nil _
  | some a =>
    have hinv := inv_cleanup h hnow
    have hmax := maxTokens_eq hinv hburst
    intro v hv
    unfold operations at hv
    cases he : (r.cleanup now).entries a with
    | none =>
      simp only [he, hmax, hinv.burst_eq, timeSecond, List.mem_cons, List.not_mem_nil, or_false]
        at hv
      omega
    | some e =>
      obtain ⟨hgain, hlow, hhigh⟩ := gain_bounds hinv (cleanup_recent h) hrate he
      have hfull := refilled_eq hinv (cleanup_recent h) hrate hburst.2 he
      have htokens := hinv.tokens_nonneg a e he
      have htokens' := hinv.tokens_le a e he
      simp only [timeSecond] at hhigh htokens' hmax
      have hwrap : wrap64 (rate * (now - e.last)) = rate * (now - e.last) :=
        wrap64_of_bounds (by omega) (by omega)
      simp only [he, hmax, hfull, hgain, hwrap, hinv.burst_eq, timeSecond, List.mem_append,
        List.mem_cons, List.not_mem_nil, or_false] at hv
      rcases hv with hv | hv
      · omega
      · split at hv
        · exact absurd hv List.not_mem_nil
        · rw [List.mem_singleton] at hv
          omega

theorem noOverflow_run (h : Inv rate burst clock r) (hrate : 1 ≤ rate ∧ rate ≤ 10 ^ 6)
    (hburst : 1 ≤ burst ∧ burst ≤ 10 ^ 6) {calls : List (ℤ × Option A)}
    (hcalls : Ordered clock calls) : r.NoOverflow calls := by
  induction calls generalizing r clock with
  | nil => trivial
  | cons call calls ih =>
    obtain ⟨hclock, hcalls⟩ := List.pairwise_cons.mp hcalls
    have hnow : clock ≤ call.1 := hclock _ List.mem_cons_self
    exact ⟨operations_fit h hnow hrate hburst call.2,
      ih (inv_allow h hnow hrate hburst call.2) hcalls⟩

/-! ## The limiter as a token bucket -/

omit [DecidableEq A] in
/-- If ten seconds fill a bucket, a cleanup changes no level. -/
theorem level_cleanup (h : Inv rate burst clock r) (hfill : burst ≤ 10 * rate) (hrate : 1 ≤ rate)
    (a : A) {t : ℤ} (ht : now ≤ t) :
    level (burst * timeSecond) rate ((r.cleanup now).entries a) t
      = level (burst * timeSecond) rate (r.entries a) t := by
  rcases cleanup_entries h now a with hsame | ⟨hnone, e, he, hidle⟩
  · rw [hsame]
  · have hgain : rate * (10 * timeSecond) ≤ rate * (t - e.last) :=
      mul_le_mul_of_nonneg_left (by omega) (by omega)
    have htokens := h.tokens_nonneg a e he
    simp only [timeSecond] at hgain
    simp only [hnone, he, level, timeSecond]
    omega

/-- The times of the calls for `a`. -/
def callsFor (a : A) (calls : List (ℤ × Option A)) : List ℤ :=
  (calls.filter fun call => call.2 = some a).map Prod.fst

theorem callsFor_sublist (a : A) (calls : List (ℤ × Option A)) :
    (callsFor a calls).Sublist (calls.map Prod.fst) :=
  List.filter_sublist.map _

/-- **If ten seconds fill a bucket, the limiter is a token bucket for every address.** -/
theorem admittedTimes_eq (h : Inv rate burst clock r) (hrate : 1 ≤ rate ∧ rate ≤ 10 ^ 6)
    (hburst : 1 ≤ burst ∧ burst ≤ 10 ^ 6) (hfill : burst ≤ 10 * rate) (a : A)
    {calls : List (ℤ × Option A)} (hcalls : Ordered clock calls) :
    admittedTimes a r calls
      = admitted (burst * timeSecond) rate timeSecond (r.entries a) (callsFor a calls) := by
  induction calls generalizing r clock with
  | nil => rfl
  | cons call calls ih =>
    obtain ⟨now, addr⟩ := call
    obtain ⟨hclock, hcalls⟩ := List.pairwise_cons.mp hcalls
    have hnow : clock ≤ now := hclock _ List.mem_cons_self
    have hlater : ∀ t ∈ callsFor a calls, now ≤ t := fun t ht =>
      (List.pairwise_cons.mp hcalls).1 t ((callsFor_sublist a calls).subset ht)
    have hrest := ih (inv_allow h hnow hrate hburst addr) hcalls
    unfold admittedTimes
    by_cases haddr : addr = some a
    · subst haddr
      -- a call for `a`: the bucket may have been deleted, which its level does not show
      have hfor : callsFor a ((now, some a) :: calls) = now :: callsFor a calls := by
        simp [callsFor]
      rw [hfor, ← admitted_congr (fun t ht => level_cleanup h hfill hrate.1 a ht)
        (List.forall_mem_cons.mpr ⟨le_rfl, hlater⟩)]
      rw [allow_eq_take h hnow hrate hburst a] at hrest ⊢
      simp only [hrest, admitted, Function.update_self, true_and]
    · have hfor : callsFor a ((now, addr) :: calls) = callsFor a calls := by
        simp [callsFor, haddr]
      simp only [haddr, false_and, if_false, hrest, hfor]
      cases addr with
      | none => rfl
      | some b =>
        have hne : a ≠ b := fun hab => haddr (hab ▸ rfl)
        rw [allow_eq_take h hnow hrate hburst b]
        simp only [Function.update_of_ne hne]
        exact admitted_congr (fun t ht => level_cleanup h hfill hrate.1 a ht) hlater

/-! ## Bursts -/

omit [DecidableEq A] in
/-- After more than ten idle seconds a call finds no entry. -/
theorem cleanup_idle (h : Inv rate burst clock r) (hidle : clock + 10 * timeSecond < now) (a : A) :
    (r.cleanup now).entries a = none := by
  have hdue : r.cleanupInterval ≤ timeSub now r.lastCleanup := by
    have := h.cleanup_le
    rw [h.interval_eq, le_timeSub_iff (by norm_num [timeSecond]) (by norm_num [timeSecond])]
    simp only [timeSecond] at hidle ⊢
    omega
  rw [cleanup, if_pos hdue]
  refine Option.filter_eq_none_iff.mpr fun e he => ?_
  have := h.last_le a e he
  rw [decide_eq_true_iff, h.ttl_eq,
    timeSub_le_iff (by norm_num [timeSecond]) (by norm_num [timeSecond])]
  omega

/-- As many calls at one time are admitted as there are tokens. -/
theorem admittedTimes_burst (hrate : 1 ≤ rate ∧ rate ≤ 10 ^ 6)
    (hburst : 1 ≤ burst ∧ burst ≤ 10 ^ 6) (a : A) (h : Inv rate burst clock r) (hnow : clock ≤ now)
    (n : ℕ)
    (hlevel : n * timeSecond ≤ level (burst * timeSecond) rate ((r.cleanup now).entries a) now) :
    ∃ r', Inv rate burst now r' ∧ ∀ calls,
      admittedTimes a r (List.replicate n (now, some a) ++ calls)
        = List.replicate n now ++ admittedTimes a r' calls := by
  induction n generalizing r clock with
  | zero => exact ⟨r, h.wait hnow, fun _ => rfl⟩
  | succ n ih =>
    push_cast at hlevel
    have hpaid :
        admits (burst * timeSecond) rate timeSecond ((r.cleanup now).entries a) now = true := by
      refine decide_eq_true (le_trans ?_ hlevel)
      simp only [timeSecond]
      omega
    have hcall := allow_eq_take h hnow hrate hburst a
    have hinv := inv_allow h hnow hrate hburst (some a)
    have hentry : (r.allow (some a) now).2.entries a
        = some (take (burst * timeSecond) rate timeSecond ((r.cleanup now).entries a) now) := by
      rw [hcall]
      exact Function.update_self _ _ _
    -- the entry of this call is not deleted by the next one
    have hkept : ((r.allow (some a) now).2.cleanup now).entries a
        = (r.allow (some a) now).2.entries a := by
      rcases cleanup_entries hinv now a with hsame | ⟨_, e, he, hidle⟩
      · exact hsame
      · obtain rfl := Option.some.inj (hentry.symm.trans he)
        simp [take, timeSecond] at hidle
    have hleft : n * timeSecond
        ≤ level (burst * timeSecond) rate
          (((r.allow (some a) now).2.cleanup now).entries a) now := by
      rw [hkept, hentry, level_take (by norm_num [timeSecond])]
      simp only [take, hpaid, if_true]
      linarith
    obtain ⟨r', hr', hcalls⟩ := ih hinv le_rfl hleft
    refine ⟨r', hr', fun calls => ?_⟩
    rw [List.replicate_succ, List.replicate_succ, List.cons_append, List.cons_append, ← hcalls]
    rw [admittedTimes, hcall]
    simp [hpaid]

/-- A burst, and a second one as soon as the entry is deleted. -/
def bursts (n : ℕ) (a : A) : List (ℤ × Option A) :=
  List.replicate n (0, some a) ++ List.replicate n (10 * timeSecond + 1, some a)

omit [DecidableEq A] in
theorem ordered_bursts (n : ℕ) (a : A) : Ordered 0 (bursts n a) := by
  simp [Ordered, bursts, List.pairwise_append, List.pairwise_replicate, timeSecond]
  omega

/-- Both bursts are admitted. -/
theorem admittedTimes_bursts (hrate : 1 ≤ rate ∧ rate ≤ 10 ^ 6)
    (hburst : 1 ≤ burst ∧ burst ≤ 10 ^ 6) (a : A) :
    admittedTimes a (newIPRateLimiter rate burst 0) (bursts burst.toNat a)
      = List.replicate burst.toNat 0 ++ List.replicate burst.toNat (10 * timeSecond + 1) := by
  have hn : (burst.toNat : ℤ) * timeSecond = burst * timeSecond := by
    rw [Int.toNat_of_nonneg (by omega)]
  have hnew := inv_new (A := A) hrate.1 hburst.1 0
  have hfull : (cleanup (newIPRateLimiter rate burst 0 : IPRateLimiter A) 0).entries a = none := by
    rcases cleanup_entries hnew 0 a with hsame | ⟨hnone, _⟩
    · exact hsame
    · exact hnone
  obtain ⟨r, hr, hfirst⟩ := admittedTimes_burst hrate hburst a hnew le_rfl burst.toNat
    (by rw [hfull, hn]; exact le_rfl)
  have hlater : (0 : ℤ) ≤ 10 * timeSecond + 1 := by norm_num [timeSecond]
  have hempty : (r.cleanup (10 * timeSecond + 1)).entries a = none := cleanup_idle hr (by omega) a
  obtain ⟨r', _, hsecond⟩ := admittedTimes_burst hrate hburst a hr hlater burst.toNat
    (by rw [hempty, hn]; exact le_rfl)
  have hrest := hsecond []
  rw [List.append_nil] at hrest
  rw [bursts, hfirst, hrest, admittedTimes, List.append_nil]

end Call

end IPRateLimiter

/-! ## The bound -/

section Bound

open IPRateLimiter

variable {rate burst : ℤ}

/-- A bound for whole nanoseconds is one for all intervals. -/
theorem limited_of_within (hrate : 1 ≤ rate) (hburst : 1 ≤ burst) {times : List ℤ}
    (h : ∀ start stop : ℤ, start ≤ stop →
      timeSecond * times.countP (within start stop) ≤ burst * timeSecond + rate * (stop - start)) :
    Limited rate burst times := by
  intro start T hT
  set lo : ℤ := ⌈start * 10 ^ 9⌉ with hlo
  set hi : ℤ := ⌊(start + T) * 10 ^ 9⌋ with hhi
  have hcount : (times.countP fun t : ℤ => start ≤ t / 10 ^ 9 ∧ t / 10 ^ 9 ≤ start + T)
      = times.countP (within lo hi) := by
    refine List.countP_congr fun t _ => ?_
    rw [decide_eq_true_iff, decide_eq_true_iff, le_div_iff₀ (by norm_num),
      div_le_iff₀ (by norm_num), hlo, hhi, Int.ceil_le, Int.le_floor]
  have hrate' : (0 : ℝ) ≤ rate := by exact_mod_cast zero_le_one.trans hrate
  have hburst' : (0 : ℝ) ≤ burst := by exact_mod_cast zero_le_one.trans hburst
  rw [hcount]
  rcases le_or_gt lo hi with hle | hlt
  · have hlen : (hi - lo : ℝ) ≤ T * 10 ^ 9 := by
      have h₁ : start * 10 ^ 9 ≤ lo := Int.le_ceil _
      have h₂ : (hi : ℝ) ≤ (start + T) * 10 ^ 9 := Int.floor_le _
      linarith
    have hgain := mul_le_mul_of_nonneg_left hlen hrate'
    have hbound : (10 ^ 9 : ℝ) * times.countP (within lo hi)
        ≤ burst * 10 ^ 9 + rate * (hi - lo) := by
      exact_mod_cast h lo hi hle
    linarith
  · have hnone : times.countP (within lo hi) = 0 :=
      List.countP_eq_zero.mpr fun t _ => by simp; omega
    rw [hnone, Nat.cast_zero]
    exact add_nonneg hburst' (mul_nonneg hrate' hT)

theorem le_of_limited_bursts (hrate : 1 ≤ rate ∧ rate ≤ 10 ^ 6) (hburst : 1 ≤ burst)
    (h : Limited rate burst
      (List.replicate burst.toNat 0 ++ List.replicate burst.toNat (10 * timeSecond + 1))) :
    burst ≤ 10 * rate := by
  have hboth := h 0 (10 + 1 / 10 ^ 9) (by norm_num)
  have hcount : (burst.toNat : ℝ) = burst := by
    exact_mod_cast Int.toNat_of_nonneg (zero_le_one.trans hburst)
  have hrate' : (rate : ℝ) ≤ 10 ^ 6 := by exact_mod_cast hrate.2
  rw [List.countP_append, List.countP_replicate, List.countP_replicate,
    if_pos (by norm_num), if_pos (by norm_num [timeSecond]), Nat.cast_add, hcount] at hboth
  have hlt : (burst : ℝ) < 10 * rate + 1 := by linarith
  have hlt' : burst < 10 * rate + 1 := by exact_mod_cast hlt
  omega

variable [DecidableEq A]

variable (A) in
/-- **The limiter keeps its bound exactly if `burst ≤ 10 * rate`**, and nothing overflows. -/
theorem allow_bounded_iff [Nonempty A] (hrate : 1 ≤ rate ∧ rate ≤ 10 ^ 6)
    (hburst : 1 ≤ burst ∧ burst ≤ 10 ^ 6) :
    (∀ created, ∀ calls : List (ℤ × Option A), Ordered created calls →
      (newIPRateLimiter rate burst created).NoOverflow calls) ∧
    ((∀ created, ∀ calls : List (ℤ × Option A), Ordered created calls →
      ∀ a, Limited rate burst (admittedTimes a (newIPRateLimiter rate burst created) calls)) ↔
      burst ≤ 10 * rate) := by
  refine ⟨fun created calls hcalls =>
    noOverflow_run (inv_new hrate.1 hburst.1 created) hrate hburst hcalls, fun h => ?_, ?_⟩
  · obtain ⟨a⟩ := ‹Nonempty A›
    have hrun := h 0 (bursts burst.toNat a) (ordered_bursts _ a) a
    rw [admittedTimes_bursts hrate hburst a] at hrun
    exact le_of_limited_bursts hrate hburst.1 hrun
  · intro hfill created calls hcalls a
    have hsorted : (callsFor a calls).Pairwise (· ≤ ·) :=
      (List.pairwise_cons.mp hcalls).2.sublist (callsFor_sublist a calls)
    rw [admittedTimes_eq (inv_new hrate.1 hburst.1 created) hrate hburst hfill a hcalls]
    refine limited_of_within hrate.1 hburst.1 fun start stop hstop => ?_
    exact cost_mul_countP_admitted_le (zero_le_one.trans hrate.1) (by norm_num [timeSecond])
      (mul_nonneg (by omega) (by norm_num [timeSecond])) hsorted hstop

instance : Nonempty Netip.Addr := ⟨.v4 0⟩

/-- With the default values the two bursts are limited as promised. -/
theorem allow_bounded_default :
    (1 ≤ (20 : ℤ) ∧ (20 : ℤ) ≤ 10 ^ 6) ∧ (1 ≤ (5 : ℤ) ∧ (5 : ℤ) ≤ 10 ^ 6) ∧
      Limited 20 5 (admittedTimes (Netip.Addr.v4 0xc0000201) (newIPRateLimiter 20 5 0)
        (bursts 5 (Netip.Addr.v4 0xc0000201))) :=
  ⟨by decide, by decide, (allow_bounded_iff Netip.Addr (by decide) (by decide)).2.mpr (by decide) 0
    (bursts 5 (Netip.Addr.v4 0xc0000201)) (ordered_bursts _ _) _⟩

/-- A limiter for one call in a second with bursts of eleven admits twenty-two calls of an address in
ten seconds and a nanosecond. -/
theorem burst_after_cleanup :
    Ordered 0 (bursts 11 (Netip.Addr.v4 0xc0000201)) ∧
      ¬ Limited 1 11 (admittedTimes (Netip.Addr.v4 0xc0000201) (newIPRateLimiter 1 11 0)
        (bursts 11 (Netip.Addr.v4 0xc0000201))) := by
  refine ⟨ordered_bursts _ _, fun h => ?_⟩
  have hrate : (1 : ℤ) ≤ 1 ∧ (1 : ℤ) ≤ 10 ^ 6 := by decide
  have hburst : (1 : ℤ) ≤ 11 ∧ (11 : ℤ) ≤ 10 ^ 6 := by decide
  have hrun := admittedTimes_bursts hrate hburst (Netip.Addr.v4 0xc0000201)
  rw [show (11 : ℤ).toNat = 11 from rfl] at hrun
  rw [hrun] at h
  have hfill : (11 : ℤ) ≤ 10 * 1 := le_of_limited_bursts hrate hburst.1 h
  omega

end Bound

end ObsidianVPN.Server
