import ObsidianVPN.Lib.Machine

/-!
# Relays between two connections

Two processes copy what arrives on one connection to the other one; a third process waits for them
and closes both connections. Relays differ in what a copying process does when it has come to the
end, and in whether the third one waits for both directions or for one.

* `Direction`, `Direction.step`: what is on its way from one peer to the other;
* `Policy`, `State`, `step`: both directions, with peers that send, finish and fail at any time;
* `Flow`, **`Flow.step`**: what has been written is a first part of what was sent;
* `Whole`, `Inv`: nothing is cut off if the end is passed on, both directions are waited for, and no
  connection fails; **`delivered_of_stuck`**, `copies_le`: a direction that cannot move has delivered
  everything, and it moves a bounded number of times.
-/

namespace Relay

variable {α : Type}

/-! ## One direction -/

/-- Where a copying process stands. -/
inductive Loc (α : Type) where
  | reading
  | writing (buf : List α)
  /-- The copying has ended. -/
  | copied
  | done

/-- What has been read and not written. -/
def Loc.held : Loc α → List α
  | .writing buf => buf
  | _ => []

def Loc.active : Loc α → Bool
  | .reading | .writing _ => true
  | _ => false

def Loc.isDone : Loc α → Bool
  | .done => true
  | _ => false

/-- What is on its way from one peer, the source, to the other one. -/
structure Direction (α : Type) where
  /-- What the source has sent. -/
  sent : List α
  /-- The source sends nothing more. -/
  fin : Bool
  /-- What has arrived and has not been read. -/
  inbox : List α
  loc : Loc α
  /-- What has been written to the destination. -/
  out : List α
  /-- The destination is told that nothing more comes. -/
  finOut : Bool

/-- The connections at the two ends of a direction. -/
structure Ends where
  srcClosed : Bool
  srcBroken : Bool
  dstClosed : Bool
  dstBroken : Bool

/-- What a copying process does at the end to the connection it has written to. -/
inductive Ending where
  | closeWrite
  | close
  | nothing
  deriving DecidableEq

structure Policy where
  ending : Ending
  /-- Both directions are waited for. -/
  both : Bool
  /-- The size of the buffers. -/
  size : ℕ

inductive Move (α : Type) where
  | send (bs : List α)
  | finish
  /-- The process reads `n` elements, or none at the end. -/
  | read (n : ℕ)
  /-- The process writes what it has read, only the first `k` elements if the connection breaks. -/
  | write (k : ℕ)
  | ending

/-- The move of a copying process. -/
def Move.copies : Move α → Bool
  | .send _ | .finish => false
  | _ => true

namespace Direction

variable (d : Direction α)

def read (size : ℕ) (ends : Ends) (n : ℕ) : Option (Direction α) :=
  if ends.srcClosed then some { d with loc := .copied }
  else if 0 < n then
    if n ≤ size ∧ n ≤ d.inbox.length then
      some { d with inbox := d.inbox.drop n, loc := .writing (d.inbox.take n) }
    else none
  else if ends.srcBroken ∨ d.inbox = [] ∧ d.fin then some { d with loc := .copied }
  else none

def write (ends : Ends) (buf : List α) (k : ℕ) : Direction α :=
  if ends.dstClosed then { d with loc := .copied }
  else if ends.dstBroken then { d with out := d.out ++ buf.take k, loc := .copied }
  else { d with out := d.out ++ buf, loc := .reading }

def step (p : Policy) (ends : Ends) : Move α → Option (Direction α)
  | .send bs =>
    if d.fin then none else some { d with sent := d.sent ++ bs, inbox := d.inbox ++ bs }
  | .finish => some { d with fin := true }
  | .read n =>
    match d.loc with
    | .reading => d.read p.size ends n
    | _ => none
  | .write k =>
    match d.loc with
    | .writing buf => some (d.write ends buf k)
    | _ => none
  | .ending =>
    match d.loc with
    | .copied => some { d with loc := .done, finOut := d.finOut || decide (p.ending ≠ .nothing) }
    | _ => none

/-- The direction when `front` has been read and written. -/
def start (front : List α) : Direction α := ⟨front, false, [], .reading, front, false⟩

end Direction

/-- **What a move can do.** -/
inductive Moved (p : Policy) (ends : Ends) (d : Direction α) : Move α → Direction α → Prop
  | send (bs : List α) (hfin : d.fin = false) :
      Moved p ends d (.send bs) { d with sent := d.sent ++ bs, inbox := d.inbox ++ bs }
  | finish : Moved p ends d .finish { d with fin := true }
  | took {n : ℕ} (hloc : d.loc = .reading) (hn : 0 < n) (hle : n ≤ d.inbox.length) :
      Moved p ends d (.read n)
        { d with inbox := d.inbox.drop n, loc := .writing (d.inbox.take n) }
  | ended {n : ℕ} (hloc : d.loc = .reading)
      (hend : ends.srcClosed = true ∨ ends.srcBroken = true ∨ d.inbox = [] ∧ d.fin = true) :
      Moved p ends d (.read n) { d with loc := .copied }
  | wrote {k : ℕ} {buf : List α} (hloc : d.loc = .writing buf) :
      Moved p ends d (.write k) { d with out := d.out ++ buf, loc := .reading }
  | cut {k : ℕ} {buf l : List α} (hloc : d.loc = .writing buf) (hl : l <+: buf)
      (hbad : ends.dstClosed = true ∨ ends.dstBroken = true) :
      Moved p ends d (.write k) { d with out := d.out ++ l, loc := .copied }
  | passed (hloc : d.loc = .copied) :
      Moved p ends d .ending
        { d with loc := .done, finOut := d.finOut || decide (p.ending ≠ .nothing) }

theorem moved_of_step {p : Policy} {ends : Ends} {d d' : Direction α} {m : Move α}
    (h : d.step p ends m = some d') : Moved p ends d m d' := by
  cases m with
  | send bs =>
    simp only [Direction.step, Option.ite_none_left_eq_some, Bool.not_eq_true,
      Option.some.injEq] at h
    obtain ⟨hfin, rfl⟩ := h
    exact .send bs hfin
  | finish =>
    obtain rfl := Option.some.inj h
    exact .finish
  | read n =>
    cases hloc : d.loc with
    | reading =>
      simp only [Direction.step, hloc, Direction.read] at h
      split_ifs at h with hclosed hn hle hend
      · obtain rfl := Option.some.inj h
        exact .ended hloc (.inl hclosed)
      · obtain rfl := Option.some.inj h
        exact .took hloc hn hle.2
      · obtain rfl := Option.some.inj h
        exact .ended hloc (.inr hend)
    | _ => simp [Direction.step, hloc] at h
  | write k =>
    cases hloc : d.loc with
    | writing buf =>
      simp only [Direction.step, hloc, Direction.write, Option.some.injEq] at h
      split_ifs at h with hclosed hbroken
      · subst h
        have hcut := Moved.cut (p := p) (k := k) hloc (List.nil_prefix) (.inl hclosed)
        rwa [List.append_nil] at hcut
      · subst h
        exact .cut hloc (List.take_prefix _ _) (.inr hbroken)
      · subst h
        exact .wrote hloc
    | _ => simp [Direction.step, hloc] at h
  | ending =>
    cases hloc : d.loc with
    | copied =>
      simp only [Direction.step, hloc, Option.some.injEq] at h
      subst h
      exact .passed hloc
    | _ => simp [Direction.step, hloc] at h

/-! ## What has been written was sent -/

/-- Nothing is added, repeated or moved; as long as the copying goes on nothing is lost. -/
structure Flow (d : Direction α) : Prop where
  active : d.loc.active = true → d.out ++ d.loc.held ++ d.inbox = d.sent
  out_isPrefix : d.out <+: d.sent
  inbox_le : d.inbox.length ≤ d.sent.length

theorem flow_start (front : List α) : Flow (.start front) where
  active _ := by simp [Direction.start, Loc.held]
  out_isPrefix := List.prefix_rfl
  inbox_le := Nat.zero_le _

theorem Flow.step {p : Policy} {ends : Ends} {d d' : Direction α} {m : Move α} (h : Flow d)
    (hstep : d.step p ends m = some d') : Flow d' := by
  cases moved_of_step hstep with
  | send bs hfin =>
    refine ⟨fun hact => ?_, h.out_isPrefix.trans (List.prefix_append _ _), ?_⟩
    · rw [← h.active hact]
      simp only [List.append_assoc]
    · simpa only [List.length_append] using Nat.add_le_add_right h.inbox_le _
  | finish => exact ⟨h.active, h.out_isPrefix, h.inbox_le⟩
  | took hloc hn hle =>
    refine ⟨fun _ => ?_, h.out_isPrefix, ?_⟩
    · have hflow := h.active (by rw [hloc]; rfl)
      rw [hloc] at hflow
      simpa [Loc.held] using hflow
    · rw [List.length_drop]
      exact (Nat.sub_le _ _).trans h.inbox_le
  | ended hloc hend => exact ⟨nofun, h.out_isPrefix, h.inbox_le⟩
  | wrote hloc =>
    have hflow := h.active (by rw [hloc]; rfl)
    rw [hloc] at hflow
    refine ⟨fun _ => by simpa [Loc.held] using hflow, ?_, h.inbox_le⟩
    rw [← hflow]
    exact List.prefix_append _ _
  | cut hloc hl hbad =>
    have hflow := h.active (by rw [hloc]; rfl)
    rw [hloc] at hflow
    refine ⟨nofun, ?_, h.inbox_le⟩
    rw [← hflow, List.append_assoc]
    exact (List.prefix_append_right_inj _).mpr (hl.trans (List.prefix_append _ _))
  | passed hloc => exact ⟨nofun, h.out_isPrefix, h.inbox_le⟩

/-- How far the copying has come. -/
def Direction.progress (d : Direction α) : ℕ :=
  2 * (d.sent.length - d.inbox.length) +
    match d.loc with
    | .reading => 1
    | .writing _ => 0
    | .copied => 2
    | .done => 3

/-- Every step of the copying process is progress. -/
theorem progress_step {p : Policy} {ends : Ends} {d d' : Direction α} {m : Move α} (h : Flow d)
    (hstep : d.step p ends m = some d') :
    m.copies.toNat + d.progress ≤ d'.progress := by
  have hle := h.inbox_le
  cases moved_of_step hstep with
  | send bs hfin =>
    simp only [Move.copies, Bool.toNat_false, Direction.progress, List.length_append]
    omega
  | finish => simp [Move.copies, Direction.progress]
  | took hloc hn hlen =>
    simp only [Move.copies, Bool.toNat_true, Direction.progress, hloc, List.length_drop]
    omega
  | ended hloc hend =>
    simp only [Move.copies, Bool.toNat_true, Direction.progress, hloc]
    omega
  | wrote hloc =>
    simp only [Move.copies, Bool.toNat_true, Direction.progress, hloc]
    omega
  | cut hloc hl hbad =>
    simp only [Move.copies, Bool.toNat_true, Direction.progress, hloc]
    omega
  | passed hloc =>
    simp only [Move.copies, Bool.toNat_true, Direction.progress, hloc]
    omega

/-! ## Nothing is cut off -/

/-- The copying has ended only when everything has been written. -/
structure Whole (d : Direction α) : Prop extends Flow d where
  all : d.loc.active = false → d.out = d.sent ∧ d.fin = true
  told : d.loc.isDone = true → d.finOut = true
  late : d.finOut = true → d.loc.active = false

theorem whole_start (front : List α) : Whole (.start front) where
  toFlow := flow_start front
  all := nofun
  told := nofun
  late := nofun

/-- With the connections in order as long as the copying goes on, nothing is cut off. -/
theorem Whole.step {p : Policy} (hp : p.ending = .closeWrite) {ends : Ends} {d d' : Direction α}
    {m : Move α} (h : Whole d) (hends : d.loc.active = true → ends = ⟨false, false, false, false⟩)
    (hstep : d.step p ends m = some d') : Whole d' := by
  have hflow := h.toFlow.step hstep
  -- the end is told only after the copying
  have hquiet : d.loc.active = true → d.finOut = true → False := fun hact hfin => by
    simp [h.late hfin] at hact
  cases moved_of_step hstep with
  | send bs hfin =>
    refine ⟨hflow, fun hact => ?_, h.told, h.late⟩
    rw [(h.all hact).2] at hfin
    cases hfin
  | finish => exact ⟨hflow, fun hact => ⟨(h.all hact).1, rfl⟩, h.told, h.late⟩
  | took hloc hn hle =>
    refine ⟨hflow, nofun, nofun, fun hfin => ?_⟩
    exact absurd hfin (hquiet (by rw [hloc]; rfl))
  | ended hloc hend =>
    have hact : d.loc.active = true := by rw [hloc]; rfl
    refine ⟨hflow, fun _ => ?_, nofun, fun _ => rfl⟩
    rw [hends hact] at hend
    obtain ⟨hempty, hfin⟩ : d.inbox = [] ∧ d.fin = true := by simpa using hend
    have hall := h.active hact
    rw [hloc, hempty] at hall
    exact ⟨by simpa [Loc.held] using hall, hfin⟩
  | wrote hloc =>
    refine ⟨hflow, nofun, nofun, fun hfin => ?_⟩
    exact absurd hfin (hquiet (by rw [hloc]; rfl))
  | cut hloc hl hbad =>
    rw [hends (by rw [hloc]; rfl)] at hbad
    simp at hbad
  | passed hloc =>
    refine ⟨hflow, fun _ => h.all (by rw [hloc]; rfl), fun _ => ?_, fun _ => rfl⟩
    simp [hp]

/-- **A direction that cannot move has delivered everything.** -/
theorem Whole.delivered_of_stuck {p : Policy} (hsize : 0 < p.size) {ends : Ends} {d : Direction α}
    (h : Whole d) (hstuck : ∀ m : Move α, m.copies = true → d.step p ends m = none) :
    d.out = d.sent ∧ (d.fin = true → d.finOut = true) := by
  cases hloc : d.loc with
  | reading =>
    have hflow := h.active (by rw [hloc]; rfl)
    rw [hloc] at hflow
    -- it would read what is there, or the end
    have hread := hstuck (.read (min p.size d.inbox.length)) rfl
    simp only [Direction.step, hloc, Direction.read] at hread
    split_ifs at hread with _ hpos hle hend
    · exact absurd ⟨min_le_left _ _, min_le_right _ _⟩ hle
    · have hempty : d.inbox = [] := by
        rw [← List.length_eq_zero_iff]
        omega
      refine ⟨by simpa [Loc.held, hempty] using hflow, fun hfin => ?_⟩
      exact absurd (.inr ⟨hempty, hfin⟩) hend
  | writing buf =>
    have hwrite := hstuck (.write 0) rfl
    simp [Direction.step, hloc] at hwrite
  | copied =>
    have hending := hstuck .ending rfl
    simp [Direction.step, hloc] at hending
  | done => exact ⟨(h.all (by rw [hloc]; rfl)).1, fun _ => h.told (by rw [hloc]; rfl)⟩

/-! ## Both directions -/

/-- The sides of a relay. -/
inductive Side where
  | near
  | far
  deriving DecidableEq

def Side.other : Side → Side
  | near => far
  | far => near

/-- `dir s` is the direction from the side `s`. -/
structure State (α : Type) where
  dir : Side → Direction α
  closed : Side → Bool
  broken : Side → Bool
  /-- Both connections have been closed. -/
  shut : Bool

inductive Event (α : Type) where
  | move (s : Side) (m : Move α)
  | fail (s : Side)
  | shut

/-- The process that reads from the side `s` takes this step. -/
def Event.copies (s : Side) : Event α → Bool
  | .move s' m => decide (s' = s) && m.copies
  | _ => false

namespace State

variable (st : State α)

def ends (s : Side) : Ends :=
  ⟨st.closed s, st.broken s, st.closed s.other, st.broken s.other⟩

/-- The connections that are closed after a move. -/
def closing (e : Ending) (s : Side) : Move α → Side → Bool
  | .ending => if e = .close then Function.update st.closed s.other true else st.closed
  | _ => st.closed

def move (p : Policy) (s : Side) (m : Move α) : Option (State α) :=
  ((st.dir s).step p (st.ends s) m).map fun d =>
    { st with dir := Function.update st.dir s d, closed := st.closing p.ending s m }

/-- One direction has come to its end, or both. -/
def ready (both : Bool) : Bool :=
  let near := (st.dir .near).loc.isDone
  let far := (st.dir .far).loc.isDone
  if both then near && far else near || far

/-- The relay when `front` has been read from the near side and written to the far one. -/
def start (front : List α) : State α where
  dir
    | .near => .start front
    | .far => .start []
  closed _ := false
  broken _ := false
  shut := false

end State

def step (p : Policy) (st : State α) : Event α → Option (State α)
  | .move s m => st.move p s m
  | .fail s => some { st with broken := Function.update st.broken s true }
  | .shut =>
    if ¬st.shut ∧ st.ready p.both then
      some { st with
        dir := fun s => { st.dir s with finOut := true }
        closed := fun _ => true
        shut := true }
    else none

/-- No connection fails. -/
def Sound (_ : State α) : Event α → Prop
  | .fail _ => False
  | _ => True

instance (st : State α) (e : Event α) : Decidable (Sound st e) := by
  unfold Sound
  split <;> infer_instance

/-- The process that reads from the side `s` cannot take a step. -/
def Stuck (p : Policy) (st : State α) (s : Side) : Prop :=
  ∀ m : Move α, m.copies = true → step p st (.move s m) = none

section Run

variable {p : Policy} {st st' : State α} {es : List (Event α)} {front : List α}

/-- **What an event does to a direction**: a move of its own, or its end is told. -/
theorem dir_step {e : Event α} (hstep : step p st e = some st') (s : Side) :
    (∃ m, e = .move s m ∧ (st.dir s).step p (st.ends s) m = some (st'.dir s)) ∨
      e.copies s = false ∧ (st'.dir s = st.dir s ∨
        e = .shut ∧ st'.dir s = { st.dir s with finOut := true }) := by
  cases e with
  | move s' m =>
    obtain ⟨d, hd, rfl⟩ := Option.map_eq_some_iff.mp hstep
    rcases eq_or_ne s s' with rfl | hne
    · exact .inl ⟨m, rfl, hd.trans (congrArg some (Function.update_self s d st.dir).symm)⟩
    · exact .inr ⟨by simp [Event.copies, hne.symm], .inl (Function.update_of_ne hne _ _)⟩
  | fail s' =>
    obtain rfl := Option.some.inj hstep
    exact .inr ⟨rfl, .inl rfl⟩
  | shut =>
    simp only [step, Option.ite_none_right_eq_some, Option.some.injEq] at hstep
    obtain ⟨-, rfl⟩ := hstep
    exact .inr ⟨rfl, .inr ⟨rfl, rfl⟩⟩

theorem flow_step (h : ∀ s, Flow (st.dir s)) {e : Event α} (hstep : step p st e = some st')
    (s : Side) : Flow (st'.dir s) := by
  obtain ⟨m, -, hm⟩ | ⟨-, heq | ⟨-, heq⟩⟩ := dir_step hstep s
  · exact (h s).step hm
  · rw [heq]
    exact h s
  · rw [heq]
    exact ⟨(h s).active, (h s).out_isPrefix, (h s).inbox_le⟩

theorem flow_run (hrun : Machine.run (step p) (.start front) es = some st) (s : Side) :
    Flow (st.dir s) := by
  refine Machine.run_keeps (I := fun st => ∀ s, Flow (st.dir s))
    (fun _ _ _ h hstep => flow_step h hstep) (fun s => ?_) hrun s
  cases s
  · exact flow_start front
  · exact flow_start []

/-- **A copying process takes at most two steps for each element, and two at the end.** -/
theorem copies_le (hrun : Machine.run (step p) (.start front) es = some st) (s : Side) :
    (es.map fun e => (e.copies s).toNat).sum ≤ 2 * (st.dir s).sent.length + 2 := by
  have hcost := Machine.run_cost (I := fun st => ∀ s, Flow (st.dir s))
    (μ := fun st => (st.dir s).progress) (w := fun e => (e.copies s).toNat)
    (fun a e a' ha hstep => ⟨flow_step ha hstep, ?_⟩) (fun s => ?_) hrun
  · have hfirst : 1 ≤ ((State.start front).dir s).progress := by
      cases s
      · simp [State.start, Direction.start, Direction.progress]
      · simp [State.start, Direction.start, Direction.progress]
    have hlast : (st.dir s).progress ≤ 2 * (st.dir s).sent.length + 3 := by
      unfold Direction.progress
      split <;> omega
    omega
  · obtain ⟨m, rfl, hm⟩ | ⟨hother, heq | ⟨-, heq⟩⟩ := dir_step hstep s
    · simpa [Event.copies] using progress_step (ha s) hm
    · rw [hother, heq]
      simp
    · rw [hother, heq]
      simp [Direction.progress]
  · cases s
    · exact flow_start front
    · exact flow_start []

/-- The relay that passes the end on and waits for both directions, while no connection fails. -/
structure Inv (st : State α) : Prop where
  whole : ∀ s, Whole (st.dir s)
  intact : ∀ s, st.broken s = false
  unclosed : st.shut = false → ∀ s, st.closed s = false
  finished : st.shut = true → ∀ s, (st.dir s).loc.isDone = true

theorem inv_start (front : List α) : Inv (State.start front) where
  whole s := by
    cases s
    · exact whole_start front
    · exact whole_start []
  intact _ := rfl
  unclosed _ _ := rfl
  finished := nofun

/-- As long as a direction is copied, its connections are in order. -/
theorem Inv.ends (h : Inv st) {s : Side} (hact : (st.dir s).loc.active = true) :
    st.ends s = ⟨false, false, false, false⟩ := by
  have hopen : st.shut = false := by
    by_contra hshut
    have hdone := h.finished (Bool.eq_true_of_not_eq_false hshut) s
    cases hloc : (st.dir s).loc with
    | done => simp [hloc, Loc.active] at hact
    | _ => simp [hloc, Loc.isDone] at hdone
  simp only [State.ends, h.unclosed hopen, h.intact]

theorem isDone_step {ends : Ends} {d d' : Direction α} {m : Move α} (hdone : d.loc.isDone = true)
    (hstep : d.step p ends m = some d') : d'.loc.isDone = true := by
  cases moved_of_step hstep with
  | send bs hfin => exact hdone
  | finish => exact hdone
  | took hloc | ended hloc | wrote hloc | cut hloc | passed hloc =>
    rw [hloc] at hdone
    cases hdone

theorem active_of_isDone {l : Loc α} (h : l.isDone = true) : l.active = false := by
  cases l with
  | done => rfl
  | _ => cases h

theorem Inv.step (hp : p.ending = .closeWrite) (hboth : p.both = true) (h : Inv st) {e : Event α}
    (hsound : Sound st e) (hstep : step p st e = some st') : Inv st' := by
  cases e with
  | move s m =>
    obtain ⟨d, hd, rfl⟩ := Option.map_eq_some_iff.mp hstep
    have hclosed : st.closing p.ending s m = st.closed := by
      rw [hp]
      cases m <;> rfl
    refine ⟨fun s' => ?_, h.intact, fun hopen => ?_, fun hshut s' => ?_⟩
    · rcases eq_or_ne s' s with rfl | hne
      · simp only [Function.update_self]
        exact (h.whole s').step hp h.ends hd
      · simp only [Function.update_of_ne hne]
        exact h.whole s'
    · simp only [hclosed]
      exact h.unclosed hopen
    · rcases eq_or_ne s' s with rfl | hne
      · simp only [Function.update_self]
        exact isDone_step (h.finished hshut s') hd
      · simp only [Function.update_of_ne hne]
        exact h.finished hshut s'
  | fail s => exact hsound.elim
  | shut =>
    simp only [Relay.step, hboth, State.ready, if_true, Bool.and_eq_true,
      Option.ite_none_right_eq_some, Option.some.injEq] at hstep
    obtain ⟨⟨-, hnear, hfar⟩, rfl⟩ := hstep
    have hdone : ∀ s, (st.dir s).loc.isDone = true := fun s => by
      cases s
      · exact hnear
      · exact hfar
    refine ⟨fun s => ?_, h.intact, nofun, fun _ => hdone⟩
    have hw := h.whole s
    exact ⟨⟨hw.active, hw.out_isPrefix, hw.inbox_le⟩, hw.all, fun _ => rfl,
      fun _ => active_of_isDone (hdone s)⟩

theorem Inv.run (hp : p.ending = .closeWrite) (hboth : p.both = true)
    (hsound : Machine.Along (Relay.step p) Sound (.start front) es)
    (hrun : Machine.run (Relay.step p) (.start front) es = some st) : Inv st :=
  Machine.run_inv (fun _ _ _ h hs hstep => h.step hp hboth hs hstep) (inv_start front) hsound hrun

/-- **A direction that cannot move has delivered everything, and the end.** -/
theorem delivered_of_stuck (hp : p.ending = .closeWrite) (hboth : p.both = true)
    (hsize : 0 < p.size) (hsound : Machine.Along (Relay.step p) Sound (.start front) es)
    (hrun : Machine.run (Relay.step p) (.start front) es = some st) {s : Side}
    (hstuck : Stuck p st s) :
    (st.dir s).out = (st.dir s).sent ∧ ((st.dir s).fin = true → (st.dir s).finOut = true) := by
  have hnone : ∀ m : Move α, m.copies = true → (st.dir s).step p (st.ends s) m = none :=
    fun m hm => Option.map_eq_none_iff.mp (hstuck m hm)
  exact ((Inv.run hp hboth hsound hrun).whole s).delivered_of_stuck hsize hnone

theorem stuck_of_isDone {s : Side} (h : (st.dir s).loc = .done) : Stuck p st s := by
  intro m hm
  refine Option.map_eq_none_iff.mpr ?_
  cases m with
  | send | finish => cases hm
  | read | write | ending => simp [Direction.step, h]

end Run

end Relay
