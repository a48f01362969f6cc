import Mathlib

/-!
# Token buckets

A bucket holds at most `cap` tokens and gains `rate` tokens in a unit of time; a call that is admitted
takes `cost` tokens. A bucket without a state is full. What a bucket does from some time on depends
only on its `level`, so a state may be forgotten once the bucket is full.

* `level`, `admits`, `take`: the tokens at a time, and a call;
* `level_add_le`: the level grows at most at the rate; `level_take_le`: a call does not raise it;
* `admitted`: the calls of a sequence that are admitted; `admitted_congr`: they depend on the level;
* `credit`: the tokens that can be spent until the end of an interval;
* **`cost_mul_countP_admitted_le`**: the calls admitted in an interval cost at most `cap` tokens and
  what the bucket gains in the interval.
-/

namespace TokenBucket

structure Entry where
  last : ℤ
  tokens : ℤ
  deriving DecidableEq

section Bucket

variable (cap rate cost : ℤ)

/-- The tokens at the time `t`. -/
def level (e : Option Entry) (t : ℤ) : ℤ :=
  match e with
  | none => cap
  | some e => min cap (e.tokens + rate * (t - e.last))

def admits (e : Option Entry) (now : ℤ) : Bool := decide (cost ≤ level cap rate e now)

/-- The state after a call. -/
def take (e : Option Entry) (now : ℤ) : Entry where
  last := now
  tokens := level cap rate e now - if admits cap rate cost e now then cost else 0

/-- The times of the calls that are admitted. -/
def admitted (e : Option Entry) : List ℤ → List ℤ
  | [] => []
  | now :: times =>
    if admits cap rate cost e now then now :: admitted (some (take cap rate cost e now)) times
    else admitted (some (take cap rate cost e now)) times

/-- The tokens that can be spent from the time `clock` on in the interval from `start` to `stop`. -/
def credit (e : Option Entry) (clock start stop : ℤ) : ℤ :=
  level cap rate e (max start clock) + rate * (stop - max start clock)

end Bucket

/-! ## Levels -/

section Level

variable {cap rate cost : ℤ} {e e' : Option Entry} {t t' now : ℤ}

theorem level_le (cap rate : ℤ) (e : Option Entry) (t : ℤ) : level cap rate e t ≤ cap := by
  cases e with
  | none => exact le_rfl
  | some e => exact min_le_left _ _

theorem level_add_le (hrate : 0 ≤ rate) (e : Option Entry) (h : t ≤ t') :
    level cap rate e t' ≤ level cap rate e t + rate * (t' - t) := by
  have hgain : 0 ≤ rate * (t' - t) := mul_nonneg hrate (sub_nonneg.mpr h)
  cases e with
  | none => exact le_add_of_nonneg_right hgain
  | some e =>
    have hsplit : rate * (t' - e.last) = rate * (t - e.last) + rate * (t' - t) := by ring
    simp only [level, hsplit]
    omega

theorem level_take (hcost : 0 ≤ cost) (e : Option Entry) (now : ℤ) :
    level cap rate (some (take cap rate cost e now)) now = (take cap rate cost e now).tokens := by
  have hle := level_le cap rate e now
  simp only [level, take, sub_self, mul_zero, add_zero]
  split <;> omega

/-- A call is not admitted on credit. -/
theorem tokens_take_nonneg (h : 0 ≤ level cap rate e now) :
    0 ≤ (take cap rate cost e now).tokens := by
  simp only [take]
  split
  · rename_i hadm
    have hpaid : cost ≤ level cap rate e now := of_decide_eq_true hadm
    omega
  · omega

theorem tokens_take_le (hcost : 0 ≤ cost) (e : Option Entry) (now : ℤ) :
    (take cap rate cost e now).tokens ≤ cap := by
  rw [← level_take hcost]
  exact level_le _ _ _ _

/-- A call does not raise the level. -/
theorem level_take_le (hcost : 0 ≤ cost) (e : Option Entry) (now t : ℤ) :
    level cap rate (some (take cap rate cost e now)) t ≤ level cap rate e t := by
  cases e with
  | none => exact level_le _ _ _ _
  | some e =>
    have hsplit : rate * (t - e.last) = rate * (now - e.last) + rate * (t - now) := by ring
    simp only [level, take, hsplit]
    split <;> omega

theorem take_congr (h : level cap rate e now = level cap rate e' now) :
    take cap rate cost e now = take cap rate cost e' now := by
  unfold take admits
  rw [h]

/-- **What is admitted depends on the level only.** -/
theorem admitted_congr {clock : ℤ} (h : ∀ t, clock ≤ t → level cap rate e t = level cap rate e' t)
    {times : List ℤ} (htimes : ∀ t ∈ times, clock ≤ t) :
    admitted cap rate cost e times = admitted cap rate cost e' times := by
  cases times with
  | nil => rfl
  | cons now times =>
    have hnow := h now (htimes now List.mem_cons_self)
    unfold admitted admits
    rw [hnow, take_congr hnow]

end Level

/-! ## The bound -/

section Bound

variable {cap rate cost : ℤ} {e : Option Entry} {clock now start stop : ℤ}

theorem credit_le (hrate : 0 ≤ rate) (e : Option Entry) (clock start stop : ℤ) :
    credit cap rate e clock start stop ≤ cap + rate * (stop - start) := by
  have hlevel := level_le cap rate e (max start clock)
  have hlate : rate * (stop - max start clock) ≤ rate * (stop - start) :=
    mul_le_mul_of_nonneg_left (by omega) hrate
  exact add_le_add hlevel hlate

/-- Waiting earns nothing that was not counted. -/
theorem credit_wait (hrate : 0 ≤ rate) (e : Option Entry) (h : clock ≤ now) :
    credit cap rate e now start stop ≤ credit cap rate e clock start stop := by
  have hlevel : level cap rate e (max start now)
      ≤ level cap rate e (max start clock) + rate * (max start now - max start clock) :=
    level_add_le hrate e (max_le_max_left start h)
  have hsplit : rate * (stop - max start clock)
      = rate * (max start now - max start clock) + rate * (stop - max start now) := by ring
  simp only [credit, hsplit]
  omega

/-- A call in the interval pays for itself. -/
theorem credit_take (hcost : 0 ≤ cost) (e : Option Entry) (h : start ≤ now) :
    credit cap rate (some (take cap rate cost e now)) now start stop
      = credit cap rate e now start stop - if admits cap rate cost e now then cost else 0 := by
  simp only [credit, max_eq_right h, level_take hcost]
  simp only [take]
  omega

theorem credit_take_le (hcost : 0 ≤ cost) (e : Option Entry) :
    credit cap rate (some (take cap rate cost e now)) now start stop
      ≤ credit cap rate e now start stop :=
  add_le_add_left (level_take_le hcost e now _) _

theorem level_take_nonneg (hrate : 0 ≤ rate) (hcap : 0 ≤ cap) (hlevel : 0 ≤ level cap rate e now)
    {t : ℤ} (h : now ≤ t) : 0 ≤ level cap rate (some (take cap rate cost e now)) t := by
  have hgain : 0 ≤ rate * (t - now) := mul_nonneg hrate (sub_nonneg.mpr h)
  exact le_min hcap (add_nonneg (tokens_take_nonneg hlevel) hgain)

theorem credit_nonneg (hrate : 0 ≤ rate) (hlevel : ∀ t, clock ≤ t → 0 ≤ level cap rate e t)
    (hstop : max start clock ≤ stop) : 0 ≤ credit cap rate e clock start stop := by
  have hgain : 0 ≤ rate * (stop - max start clock) := mul_nonneg hrate (sub_nonneg.mpr hstop)
  exact add_nonneg (hlevel _ (le_max_right _ _)) hgain

/-- Is `t` a time of the interval? -/
abbrev within (start stop : ℤ) (t : ℤ) : Bool := decide (start ≤ t ∧ t ≤ stop)

theorem countP_admitted_eq_zero (e : Option Entry) {times : List ℤ} (h : ∀ t ∈ times, stop < t) :
    (admitted cap rate cost e times).countP (within start stop) = 0 := by
  induction times generalizing e with
  | nil => rfl
  | cons now times ih =>
    have hrest := ih (some (take cap rate cost e now)) fun t ht => h t (List.mem_cons_of_mem _ ht)
    have hnow := h now List.mem_cons_self
    unfold admitted
    split
    · rw [List.countP_cons_of_neg (by simp; omega), hrest]
    · exact hrest

-- Induction over the calls; the invariant is that the calls of the interval still to come cost at
-- most the credit, which each call lowers by what it takes.
theorem countP_admitted_le_credit (hrate : 0 ≤ rate) (hcost : 0 ≤ cost) (hcap : 0 ≤ cap)
    (hlevel : ∀ t, clock ≤ t → 0 ≤ level cap rate e t) {times : List ℤ}
    (hsorted : (clock :: times).Pairwise (· ≤ ·)) (hstop : max start clock ≤ stop) :
    cost * (admitted cap rate cost e times).countP (within start stop)
      ≤ credit cap rate e clock start stop := by
  induction times generalizing e clock with
  | nil =>
    rw [admitted, List.countP_nil, Nat.cast_zero, mul_zero]
    exact credit_nonneg hrate hlevel hstop
  | cons now times ih =>
    obtain ⟨hclock, hsorted⟩ := List.pairwise_cons.mp hsorted
    have hnow := hclock now List.mem_cons_self
    have hwait : credit cap rate e now start stop ≤ credit cap rate e clock start stop :=
      credit_wait hrate e hnow
    have hnonneg : ∀ t, now ≤ t → 0 ≤ level cap rate (some (take cap rate cost e now)) t :=
      fun t ht => level_take_nonneg hrate hcap (hlevel now hnow) ht
    rcases lt_or_ge stop now with hlate | hin
    · have hnone : ∀ t ∈ now :: times, stop < t :=
        List.forall_mem_cons.mpr
          ⟨hlate, fun t ht => hlate.trans_le ((List.pairwise_cons.mp hsorted).1 t ht)⟩
      rw [countP_admitted_eq_zero e hnone, Nat.cast_zero, mul_zero]
      exact credit_nonneg hrate hlevel hstop
    · have hrest := ih hnonneg hsorted (max_le ((le_max_left start clock).trans hstop) hin)
      by_cases hstart : start ≤ now
      · rw [credit_take hcost e hstart] at hrest
        unfold admitted
        split
        · rename_i hadm
          rw [if_pos hadm] at hrest
          rw [List.countP_cons_of_pos (by simp; omega)]
          push_cast
          linarith
        · rename_i hadm
          rw [if_neg hadm] at hrest
          linarith
      · have hcall := hrest.trans (credit_take_le hcost e)
        unfold admitted
        split
        · rw [List.countP_cons_of_neg (by simp; omega)]
          exact hcall.trans hwait
        · exact hcall.trans hwait

/-- **In an interval at most `cap` tokens and what the bucket gains meanwhile are spent.** -/
theorem cost_mul_countP_admitted_le (hrate : 0 ≤ rate) (hcost : 0 ≤ cost) (hcap : 0 ≤ cap)
    {times : List ℤ} (hsorted : times.Pairwise (· ≤ ·)) (hstop : start ≤ stop) :
    cost * (admitted cap rate cost none times).countP (within start stop)
      ≤ cap + rate * (stop - start) := by
  cases times with
  | nil =>
    have hgain : 0 ≤ rate * (stop - start) := mul_nonneg hrate (sub_nonneg.mpr hstop)
    simpa [admitted] using add_nonneg hcap hgain
  | cons now times =>
    have hclock : (min start now :: now :: times).Pairwise (· ≤ ·) :=
      List.pairwise_cons_cons_iff_of_trans.mpr ⟨min_le_right _ _, hsorted⟩
    have hcredit : cost * (admitted cap rate cost none (now :: times)).countP (within start stop)
        ≤ credit cap rate none (min start now) start stop :=
      countP_admitted_le_credit (e := none) hrate hcost hcap (fun _ _ => hcap) hclock (by omega)
    exact hcredit.trans (credit_le hrate none _ _ _)

end Bound

end TokenBucket
