import ObsidianVPN.Udp.Endpoints

/-!
# Runs of the anti-replay window

Calls of `replayWindow.Check` one after another, from the zero window, with arbitrary 64-bit sequence
numbers.

* `checkAll`: the answers of the calls and the window after them;
* **`checkEnds_iff`**: when a call returns, with one round of its clearing loop for each number it
  moves by;
* **`check_exact`**: a call that returns accepts exactly the numbers that are new and not too old.
-/

namespace ObsidianVPN.Udp

open ReplayWindow

/-- The answers to the calls with the numbers `seqs` and the window after the last one; `none` when a
call does not return. -/
def checkAll (w : Replay) : List UInt64 → Option (List Bool × Replay)
  | [] => some ([], w)
  | seq :: seqs =>
    (w.check seq.toNat).bind fun r => (checkAll r.2 seqs).map fun t => (r.1 :: t.1, t.2)

/-- The numbers whose call answered `true`, in the order of the calls. -/
def acceptedSeqs (seqs : List UInt64) (answers : List Bool) : List ℕ :=
  ((seqs.zip answers).filter (·.2)).map (·.1.toNat)

/-- The largest accepted number, 0 if there is none. -/
def largestSeq (accepted : List ℕ) : ℕ := accepted.foldl max 0

/-! ## The clearing loop -/

/-- The call takes the branch with the loop. -/
def RunsLoop (w : Replay) (seq : UInt64) : Prop :=
  w.maxSeq < seq.toNat ∧ seq.toNat - w.maxSeq < 4096

instance (w : Replay) (seq : UInt64) : Decidable (RunsLoop w seq) :=
  inferInstanceAs (Decidable (_ ∧ _))

/-- The call returns, and its loop, if it gets there, makes one round for each number from
`maxSeq + 1` to `seq`. -/
def CheckEnds (w : Replay) (seq : UInt64) : Prop :=
  (w.check seq.toNat).isSome = true ∧ (RunsLoop w seq →
    EndsAfter seq.toNat w.bitmap ((w.maxSeq + 1) % 2 ^ 64) (seq.toNat - w.maxSeq))

/-- **A call ends unless its loop runs up to the last 64-bit number.** -/
theorem checkEnds_iff (w : Replay) (seq : UInt64) :
    CheckEnds w seq ↔ ¬(RunsLoop w seq ∧ seq.toNat = 2 ^ 64 - 1) := by
  have hlt : seq.toNat < 2 ^ 64 := seq.toNat_lt
  have hreturns : (w.check seq.toNat).isSome = true ↔
      ¬(RunsLoop w seq ∧ seq.toNat = 2 ^ 64 - 1) := by
    rw [← not_iff_not, not_not, Bool.not_eq_true, Option.isSome_eq_false_iff,
      Option.isNone_iff_eq_none, check_eq_none_iff, RunsLoop]
    omega
  constructor
  · rintro ⟨hsome, -⟩
    exact hreturns.mp hsome
  · intro h
    refine ⟨hreturns.mpr h, fun hloop => ?_⟩
    have hseq : seq.toNat + 1 < 2 ^ 64 := by
      by_contra hbig
      exact h ⟨hloop, by omega⟩
    obtain ⟨hgt, -⟩ := hloop
    rw [Nat.mod_eq_of_lt (by omega)]
    exact endsAfter_clearLoop hseq _ _ (by omega)

/-- The window after one call with the last number but one, which takes the bulk clear. -/
def nearlyFull : Replay := ⟨0xfffffffffffffffe, Bitmap.empty.set (0xfffffffffffffffe % 4096)⟩

/-- From there the loop of a call with the last number has no end, however many rounds it is
given. -/
theorem check_last_number : checkAll .zero [0xfffffffffffffffe] = some ([true], nearlyFull) ∧
    ¬CheckEnds nearlyFull 0xffffffffffffffff ∧
    ∀ fuel, clearLoop 0xffffffffffffffff fuel nearlyFull.bitmap
      ((nearlyFull.maxSeq + 1) % 2 ^ 64) = none := by
  refine ⟨by decide +kernel, ?_, fun fuel => ?_⟩
  · rintro ⟨hsome, -⟩
    have hnone : nearlyFull.check (0xffffffffffffffff : UInt64).toNat = none :=
      check_eq_none_iff.mpr (by decide)
    rw [hnone] at hsome
    cases hsome
  · exact clearLoop_eq_none (by decide) fuel _ (Nat.mod_lt _ (by norm_num))

/-! ## What passes -/

theorem foldl_max_comm (l : List ℕ) (a b : ℕ) : l.foldl max (max a b) = max a (l.foldl max b) := by
  induction l generalizing b with
  | nil => rfl
  | cons c l ih => rw [List.foldl_cons, max_assoc, ih, List.foldl_cons]

theorem largestSeq_cons (seq : ℕ) (accepted : List ℕ) :
    largestSeq (seq :: accepted) = max seq (largestSeq accepted) := by
  rw [largestSeq, List.foldl_cons, max_comm, foldl_max_comm, largestSeq]

theorem largestSeq_reverse (accepted : List ℕ) :
    largestSeq accepted.reverse = largestSeq accepted := by
  unfold largestSeq
  exact (List.reverse_perm accepted).foldl_eq 0

/-- What the window knows after the numbers in `accepted`, the last one first. -/
structure Knows (w : Replay) (accepted : List ℕ) : Prop where
  tracks : Tracks w accepted
  maxSeq_eq : w.maxSeq = largestSeq accepted
  nodup : accepted.Nodup

theorem knows_zero : Knows .zero [] := ⟨tracks_zero, rfl, List.nodup_nil⟩

/-- **A call**: the window keeps knowing, with the number added if it passed. -/
theorem Knows.check {w w' : Replay} {accepted : List ℕ} (h : Knows w accepted) {seq : ℕ} {ok : Bool}
    (hc : w.check seq = some (ok, w')) : Knows w' (if ok then seq :: accepted else accepted) := by
  cases ok with
  | false =>
    obtain rfl := check_false hc
    exact h
  | true =>
    refine ⟨h.tracks.check hc, ?_, List.nodup_cons.mpr ⟨(h.tracks.toRemembers.check hc).1, h.nodup⟩⟩
    rw [(check_true hc).1, h.maxSeq_eq, if_pos rfl, largestSeq_cons, max_comm]

/-- **A run of calls.** -/
theorem Knows.checkAll {w w' : Replay} {accepted : List ℕ} (h : Knows w accepted)
    {seqs : List UInt64} {answers : List Bool} (hrun : checkAll w seqs = some (answers, w')) :
    Knows w' ((acceptedSeqs seqs answers).reverse ++ accepted) := by
  induction seqs generalizing w accepted answers with
  | nil =>
    cases hrun
    exact h
  | cons seq seqs ih =>
    obtain ⟨⟨ok, w₁⟩, hc, hrest⟩ := Option.bind_eq_some_iff.mp hrun
    obtain ⟨⟨answers', w₂⟩, htail, heq⟩ := Option.map_eq_some_iff.mp hrest
    cases heq
    have hknows := ih (h.check hc) htail
    cases ok with
    | false => exact hknows
    | true =>
      change Knows w₂ ((seq.toNat :: acceptedSeqs seqs answers').reverse ++ accepted)
      rw [List.reverse_cons, List.append_assoc]
      exact hknows

/-- **The window is exact.** After any calls that returned, a further call that returns answers `true`
exactly when the number was not accepted before and is above the largest accepted number or less than
4096 below it; and no number was accepted twice. -/
theorem check_exact {seqs : List UInt64} {answers : List Bool} {w : Replay}
    (hrun : checkAll .zero seqs = some (answers, w)) {seq : UInt64} {ok : Bool} {w' : Replay}
    (hc : w.check seq.toNat = some (ok, w')) :
    (ok = true ↔ seq.toNat ∉ acceptedSeqs seqs answers ∧
      (largestSeq (acceptedSeqs seqs answers) < seq.toNat ∨
        largestSeq (acceptedSeqs seqs answers) - seq.toNat < 4096)) ∧
    (acceptedSeqs seqs answers).Nodup := by
  have hknows := knows_zero.checkAll hrun
  rw [List.append_nil] at hknows
  refine ⟨?_, List.nodup_reverse.mp hknows.nodup⟩
  rw [hknows.tracks.answer_iff hc, hknows.maxSeq_eq, largestSeq_reverse, List.mem_reverse]

/-- A jump past the window, a number that is too old, the oldest one within reach, and that one
again. -/
theorem check_exact_sample : ∃ w w', checkAll .zero [5000, 904, 905] =
      some ([true, false, true], w) ∧ w.check 905 = some (false, w') ∧
    (false = true ↔ 905 ∉ acceptedSeqs [5000, 904, 905] [true, false, true] ∧
      (largestSeq (acceptedSeqs [5000, 904, 905] [true, false, true]) < 905 ∨
        largestSeq (acceptedSeqs [5000, 904, 905] [true, false, true]) - 905 < 4096)) ∧
    (acceptedSeqs [5000, 904, 905] [true, false, true]).Nodup := by
  have hrun : checkAll .zero [5000, 904, 905] = some ([true, false, true],
      ⟨5000, (Bitmap.empty.set (5000 % 4096)).set (905 % 4096)⟩) := by decide +kernel
  have hc : (⟨5000, (Bitmap.empty.set (5000 % 4096)).set (905 % 4096)⟩ : Replay).check
      (905 : UInt64).toNat =
        some (false, ⟨5000, (Bitmap.empty.set (5000 % 4096)).set (905 % 4096)⟩) := by
    decide +kernel
  exact ⟨_, _, hrun, hc, check_exact hrun hc⟩

end ObsidianVPN.Udp
