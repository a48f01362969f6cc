import Mathlib

/-!
# Streams that arrive in segments

A connection delivers a stream in segments of its own choice: a read returns at most one of them. It
may also fail in between, and it fails when nothing is left. `readAtLeast` is the loop that reads
into a buffer until it holds enough.

* `Feed.content`: everything the connection will deliver; `Feed.beforeFault`: what it delivers
  before the first failure;
* `Feed.read`, `readAtLeast`; **`readAtLeast_content`**: nothing is lost or repeated;
* **`readAtLeast_ok_iff`**, **`readAtLeast_beforeFault`**: the loop succeeds or fails with what
  comes before the first failure, however it is cut;
* `Feed.later`: what comes between the later failures; **`readAtLeast_exact`**: the loop that reads a
  given number of elements, in terms of the parts between the failures;
* `Feed.readFull`, **`Feed.readFull_sound`**, **`Feed.readFull_complete`**: the same as a function.
-/

/-- What one read can meet. -/
inductive Segment (α : Type*) where
  | data (l : List α)
  | fault

/-- The segments of a connection that have not been read. -/
abbrev Feed (α : Type*) := List (Segment α)

namespace Feed

variable {α : Type*}

def content : Feed α → List α
  | [] => []
  | .data l :: feed => l ++ content feed
  | .fault :: feed => content feed

def beforeFault : Feed α → List α
  | [] => []
  | .data l :: feed => l ++ beforeFault feed
  | .fault :: _ => []

/-- What it delivers between its failures and behind the last one. -/
def later : Feed α → List (List α)
  | [] => []
  | .data _ :: feed => later feed
  | .fault :: feed => beforeFault feed :: later feed

/-- The number of elements, segments and failures. -/
def weight : Feed α → ℕ
  | [] => 0
  | .data l :: feed => l.length + 1 + weight feed
  | .fault :: feed => 1 + weight feed

/-- A read into a buffer of `k` elements: what it returns, or its failure, and what is left. -/
def read (k : ℕ) : Feed α → Option (List α) × Feed α
  | [] => (none, [])
  | .fault :: feed => (none, feed)
  | .data l :: feed =>
    if l.length ≤ k then (some l, feed) else (some (l.take k), .data (l.drop k) :: feed)

variable {k : ℕ} {feed rest : Feed α} {l : List α}

theorem content_read (k : ℕ) (feed : Feed α) :
    (feed.read k).1.getD [] ++ (feed.read k).2.content = feed.content := by
  unfold read
  split
  · rfl
  · rfl
  · split
    · rfl
    · simp [content, ← List.append_assoc]

theorem beforeFault_read_none (h : feed.read k = (none, rest)) : feed.beforeFault = [] := by
  unfold read at h
  split at h
  · rfl
  · rfl
  · split at h <;> cases h

theorem beforeFault_read_some (h : feed.read k = (some l, rest)) :
    l ++ rest.beforeFault = feed.beforeFault := by
  unfold read at h
  split at h
  · cases h
  · cases h
  · split at h <;> cases h
    · rfl
    · simp [beforeFault, ← List.append_assoc]

theorem later_read_none (h : feed.read k = (none, rest)) :
    rest.beforeFault = feed.later.headD [] ∧ rest.later = feed.later.tail := by
  unfold read at h
  split at h
  · cases h
    exact ⟨rfl, rfl⟩
  · cases h
    exact ⟨rfl, rfl⟩
  · split at h <;> cases h

theorem later_read_some (h : feed.read k = (some l, rest)) :
    rest.later = feed.later ∧ l.length ≤ k := by
  unfold read at h
  split at h
  · cases h
  · cases h
  · split at h <;> cases h
    · rename_i hle
      exact ⟨rfl, hle⟩
    · exact ⟨rfl, by rw [List.length_take]; exact Nat.min_le_left _ _⟩

theorem weight_read (hk : 0 < k) (hfeed : feed ≠ []) : (feed.read k).2.weight < feed.weight := by
  unfold read
  split
  · exact absurd rfl hfeed
  · simp [weight]
  · split
    · simp only [weight]
      omega
    · simp only [weight, List.length_drop]
      omega

theorem content_of_weight (h : feed.weight = 0) : feed.content = [] := by
  cases feed with
  | nil => rfl
  | cons s feed => cases s <;> simp [weight] at h

end Feed

/-- A buffer after `readAtLeast`: what it holds, whether that is enough, and what is left unread. -/
structure Filled (α : Type*) where
  buf : List α
  ok : Bool
  rest : Feed α

/-- Reads behind `buf`, up to `limit` elements in all, until there are `target`. A `limit` below the
`target` fails at once. -/
def readAtLeast {α : Type*} (limit target : ℕ) (buf : List α) (feed : Feed α) : Filled α :=
  if _h : buf.length < target ∧ target ≤ limit then
    match _hread : feed.read (limit - buf.length) with
    | (none, rest) => ⟨buf, false, rest⟩
    | (some l, rest) => readAtLeast limit target (buf ++ l) rest
  else ⟨buf, decide (target ≤ buf.length), feed⟩
termination_by feed.weight
decreasing_by
  have hfeed : feed ≠ [] := by
    rintro rfl
    cases _hread
  have hlt := Feed.weight_read (k := limit - buf.length) (by omega) hfeed
  rwa [_hread] at hlt

section ReadAtLeast

variable {α : Type*} (limit target : ℕ) (buf : List α) (feed : Feed α)

/-- **Nothing is lost.** -/
theorem readAtLeast_content :
    (readAtLeast limit target buf feed).buf ++ (readAtLeast limit target buf feed).rest.content =
      buf ++ feed.content := by
  fun_induction readAtLeast limit target buf feed with
  | case1 buf feed h rest hread =>
    have hkept := Feed.content_read (limit - buf.length) feed
    rw [hread] at hkept
    exact congrArg (buf ++ ·) hkept
  | case2 buf feed h l rest hread ih =>
    have hkept := Feed.content_read (limit - buf.length) feed
    rw [hread] at hkept
    rw [ih, List.append_assoc]
    exact congrArg (buf ++ ·) hkept
  | case3 buf feed h => rfl

/-- **The loop succeeds exactly when enough comes before the first failure.** -/
theorem readAtLeast_ok_iff (hlimit : target ≤ limit) :
    (readAtLeast limit target buf feed).ok = true ↔ target ≤ (buf ++ feed.beforeFault).length := by
  fun_induction readAtLeast limit target buf feed with
  | case1 buf feed h rest hread =>
    rw [Feed.beforeFault_read_none hread, List.append_nil]
    simp only [Bool.false_eq_true, false_iff, not_le]
    exact h.1
  | case2 buf feed h l rest hread ih =>
    rw [ih, List.append_assoc, Feed.beforeFault_read_some hread]
  | case3 buf feed h =>
    have hfull : target ≤ buf.length := not_lt.mp fun hlt => h ⟨hlt, hlimit⟩
    rw [List.length_append]
    simp only [decide_eq_true_eq, hfull, true_iff]
    omega

/-- The buffer only grows. -/
theorem prefix_readAtLeast : buf <+: (readAtLeast limit target buf feed).buf := by
  fun_induction readAtLeast limit target buf feed with
  | case1 buf feed h rest hread => exact List.prefix_rfl
  | case2 buf feed h l rest hread ih => exact (List.prefix_append buf l).trans ih
  | case3 buf feed h => exact List.prefix_rfl

theorem readAtLeast_length (hok : (readAtLeast limit target buf feed).ok = true) :
    target ≤ (readAtLeast limit target buf feed).buf.length := by
  fun_induction readAtLeast limit target buf feed with
  | case1 buf feed h rest hread => cases hok
  | case2 buf feed h l rest hread ih => exact ih hok
  | case3 buf feed h => exact of_decide_eq_true hok

theorem readAtLeast_beforeFault (hok : (readAtLeast limit target buf feed).ok = true) :
    (readAtLeast limit target buf feed).buf ++
        (readAtLeast limit target buf feed).rest.beforeFault = buf ++ feed.beforeFault := by
  fun_induction readAtLeast limit target buf feed with
  | case1 buf feed h rest hread => cases hok
  | case2 buf feed h l rest hread ih =>
    rw [ih hok, List.append_assoc, Feed.beforeFault_read_some hread]
  | case3 buf feed h => rfl

/-- **Reading a given number of elements**: the loop takes them from what comes before the first
failure, or takes all of it and stops behind the failure. -/
theorem readAtLeast_exact (hbuf : buf.length ≤ limit) :
    if limit ≤ (buf ++ feed.beforeFault).length then
      (readAtLeast limit limit buf feed).ok = true ∧
      (readAtLeast limit limit buf feed).buf = (buf ++ feed.beforeFault).take limit ∧
      (readAtLeast limit limit buf feed).rest.beforeFault = (buf ++ feed.beforeFault).drop limit ∧
      (readAtLeast limit limit buf feed).rest.later = feed.later
    else
      (readAtLeast limit limit buf feed).ok = false ∧
      (readAtLeast limit limit buf feed).buf = buf ++ feed.beforeFault ∧
      (readAtLeast limit limit buf feed).rest.beforeFault = feed.later.headD [] ∧
      (readAtLeast limit limit buf feed).rest.later = feed.later.tail := by
  fun_induction readAtLeast limit limit buf feed with
  | case1 buf feed h rest hread =>
    obtain ⟨hnext, hlater⟩ := Feed.later_read_none hread
    rw [Feed.beforeFault_read_none hread, List.append_nil, if_neg (by omega)]
    exact ⟨rfl, rfl, hnext, hlater⟩
  | case2 buf feed h l rest hread ih =>
    obtain ⟨hlater, hle⟩ := Feed.later_read_some hread
    have hshort : (buf ++ l).length ≤ limit := by
      rw [List.length_append]
      omega
    have hstep := ih hshort
    rwa [List.append_assoc, Feed.beforeFault_read_some hread, hlater] at hstep
  | case3 buf feed h =>
    have hfull : buf.length = limit := by omega
    rw [if_pos (by rw [List.length_append]; omega)]
    exact ⟨decide_eq_true hfull.ge, (List.take_left' hfull).symm, (List.drop_left' hfull).symm, rfl⟩

end ReadAtLeast

namespace Feed

variable {α : Type*} {n : ℕ} {feed rest : Feed α} {l tail : List α}

/-- Reads exactly `n` elements, or fails. -/
def readFull (n : ℕ) (feed : Feed α) : Option (List α × Feed α) :=
  let r := readAtLeast n n [] feed
  if r.ok then some (r.buf, r.rest) else none

theorem readFull_sound (h : feed.readFull n = some (l, rest)) :
    l.length = n ∧ feed.beforeFault = l ++ rest.beforeFault ∧ rest.later = feed.later := by
  have hexact := readAtLeast_exact n [] feed (Nat.zero_le n)
  rw [List.nil_append] at hexact
  unfold readFull at h
  simp only [Option.ite_none_right_eq_some, Option.some.injEq, Prod.mk.injEq] at h
  obtain ⟨hok, rfl, rfl⟩ := h
  split at hexact
  · rename_i hle
    obtain ⟨-, hbuf, hrest, hlater⟩ := hexact
    rw [hbuf, hrest]
    exact ⟨List.length_take_of_le hle, (List.take_append_drop n _).symm, hlater⟩
  · rw [hexact.1] at hok
    cases hok

theorem readFull_complete (hfeed : feed.beforeFault = l ++ tail) (hlen : l.length = n) :
    ∃ rest, feed.readFull n = some (l, rest) ∧ rest.beforeFault = tail ∧ rest.later = feed.later := by
  have hexact := readAtLeast_exact n [] feed (Nat.zero_le n)
  rw [List.nil_append, hfeed, if_pos (by rw [List.length_append]; omega)] at hexact
  obtain ⟨hok, hbuf, hrest, hlater⟩ := hexact
  rw [List.take_left' hlen] at hbuf
  rw [List.drop_left' hlen] at hrest
  refine ⟨(readAtLeast n n [] feed).rest, ?_, hrest, hlater⟩
  simp only [readFull, hok, if_true, hbuf]

end Feed
