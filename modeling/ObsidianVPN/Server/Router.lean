import ObsidianVPN.Lib.Netip

/-!
# The client addresses of the router

The server learns from the packets of its clients which session an address belongs to. The router
has a table `byIP`, and each session has the set of its own addresses; both change under one mutex.

Sessions are named by the number of `registerSession` calls before their own.

* `packetEndpoints`, `registerSession`, `learnFromClientPacket`, `close`, `sessionForPacket`: the code;
* `TunRouter.Inv`, **`Inv.step`**: the table and the sets are mirror images;
* `MostRecent`: the session that has sent the latest packet from an address;
* `ClosedIn`, `mem_sessions_run`: the active sessions are those registered and not closed since;
* **`clientTable_correct`**: what holds after every interleaving of the calls.
-/

namespace ObsidianVPN.Server

open ByteStr Netip

/-- Source and destination of an IP packet. -/
def packetEndpoints (packet : Bytes) : Option (Addr × Addr) :=
  if packet.length = 0 then none
  else if packet.getD 0 0 >>> 4 = 4 then
    if packet.length < 20 then none
    else some (.v4 (.ofNat 32 (getBE (slice packet 12 4))), .v4 (.ofNat 32 (getBE (slice packet 16 4))))
  else if packet.getD 0 0 >>> 4 = 6 then
    if packet.length < 40 then none
    else some (.v6 (.ofNat 128 (getBE (slice packet 8 16))),
      .v6 (.ofNat 128 (getBE (slice packet 24 16))))
  else none

/-- The fields of `tunRouter` and `routedSession` that the mutex of the router guards. -/
structure TunRouter where
  /-- The active sessions. -/
  sessions : List ℕ
  byIP : Addr → Option ℕ
  ips : ℕ → List Addr
  /-- The number of sessions registered so far. -/
  registered : ℕ
  /-- The sessions whose `Close` has run. -/
  closed : List ℕ

def newTunRouter : TunRouter := ⟨[], fun _ => none, fun _ => [], 0, []⟩

def TunRouter.registerSession (r : TunRouter) : TunRouter :=
  { r with
    sessions := r.registered :: r.sessions
    ips := Function.update r.ips r.registered []
    registered := r.registered + 1 }

/-- The source of a packet, if the router may learn it. -/
def learnable (packet : Bytes) : Option Addr :=
  match packetEndpoints packet with
  | none => none
  | some (src, _) => if src.isUnspecified ∨ src.isMulticast then none else some src

/-- The sets after the previous owner of an address, if it is not `s`, has lost it. -/
def TunRouter.release (r : TunRouter) (s : ℕ) (src : Addr) : ℕ → List Addr :=
  match r.byIP src with
  | some prev =>
    if prev ≠ s then Function.update r.ips prev ((r.ips prev).filter (· ≠ src)) else r.ips
  | none => r.ips

def TunRouter.learnFromClientPacket (r : TunRouter) (s : ℕ) (packet : Bytes) : TunRouter :=
  match learnable packet with
  | none => r
  | some src =>
    if s ∉ r.sessions then r
    else if src ∈ r.ips s then r
    else
      let ips := r.release s src
      { r with
        ips := Function.update ips s (src :: ips s)
        byIP := Function.update r.byIP src (some s) }

/-- `Close`, which runs once for a session that has been registered. -/
def TunRouter.close (r : TunRouter) (s : ℕ) : TunRouter :=
  if s < r.registered ∧ s ∉ r.closed then
    { r with
      closed := s :: r.closed
      sessions := r.sessions.filter (· ≠ s)
      byIP := fun a => if a ∈ r.ips s ∧ r.byIP a = some s then none else r.byIP a }
  else r

def TunRouter.singleSession (r : TunRouter) : Option ℕ :=
  if r.sessions.length ≠ 1 then none else r.sessions.head?

def TunRouter.sessionForPacket (r : TunRouter) (packet : Bytes) : Option ℕ :=
  match packetEndpoints packet with
  | none => r.singleSession
  | some (_, dst) =>
    match r.byIP dst with
    | some s => some s
    | none => r.singleSession

/-! ## Interleavings -/

inductive RouterCall where
  | registerSession
  | learnFromClientPacket (s : ℕ) (packet : Bytes)
  | close (s : ℕ)
  deriving DecidableEq

def TunRouter.step (r : TunRouter) : RouterCall → TunRouter
  | .registerSession => r.registerSession
  | .learnFromClientPacket s packet => r.learnFromClientPacket s packet
  | .close s => r.close s

def TunRouter.run (calls : List RouterCall) : TunRouter := calls.foldl TunRouter.step newTunRouter

/-- The call processes a packet of the active session `s` from the address `a`. -/
def TunRouter.Processes (r : TunRouter) (a : Addr) (s : ℕ) : RouterCall → Prop
  | .learnFromClientPacket s' packet => s' = s ∧ learnable packet = some a ∧ s ∈ r.sessions
  | _ => False

/-- The session `s` is the last one that has processed, while active, a packet from `a`. -/
def MostRecent (calls : List RouterCall) (a : Addr) (s : ℕ) : Prop :=
  ∃ k c, calls[k]? = some c ∧ (TunRouter.run (calls.take k)).Processes a s c ∧
    ∀ k' c' s', k < k' → calls[k']? = some c' → ¬(TunRouter.run (calls.take k')).Processes a s' c'

/-- `Close` is called on the session `s` after it has been registered. -/
def ClosedIn (calls : List RouterCall) (s : ℕ) : Prop :=
  ∃ pre post, calls = pre ++ .close s :: post ∧ s < pre.count .registerSession

/-- **The table and the sets of the active sessions are mirror images.** -/
structure TunRouter.Inv (r : TunRouter) : Prop where
  mirror : ∀ s ∈ r.sessions, ∀ a, a ∈ r.ips s ↔ r.byIP a = some s
  active : ∀ a s, r.byIP a = some s → s ∈ r.sessions
  known : ∀ s ∈ r.sessions, s < r.registered
  closed : ∀ s ∈ r.closed, s ∉ r.sessions ∧ s < r.registered

theorem inv_new : newTunRouter.Inv := by
  refine ⟨?_, ?_, ?_, ?_⟩ <;> simp [newTunRouter]

theorem TunRouter.Inv.registerSession {r : TunRouter} (h : r.Inv) : r.registerSession.Inv := by
  have hne : ∀ s ∈ r.sessions, s ≠ r.registered := fun s hs => Nat.ne_of_lt (h.known s hs)
  refine ⟨fun s hs a => ?_, fun a s hs => ?_, fun s hs => ?_, fun s hs => ?_⟩
  · rcases List.mem_cons.mp hs with rfl | hs
    · -- nobody has given an address to the new session
      simp only [TunRouter.registerSession, Function.update_self, List.not_mem_nil, false_iff]
      exact fun hby => hne _ (h.active a _ hby) rfl
    · simp only [TunRouter.registerSession, Function.update_of_ne (hne s hs)]
      exact h.mirror s hs a
  · exact List.mem_cons_of_mem _ (h.active a s hs)
  · rcases List.mem_cons.mp hs with rfl | hs
    · exact Nat.lt_succ_self _
    · exact Nat.lt_succ_of_lt (h.known s hs)
  · obtain ⟨hout, hlt⟩ := h.closed s hs
    refine ⟨fun hmem => ?_, Nat.lt_succ_of_lt hlt⟩
    rcases List.mem_cons.mp hmem with rfl | hmem
    · exact Nat.lt_irrefl _ hlt
    · exact hout hmem

theorem mem_release (r : TunRouter) (s : ℕ) (src : Addr) (t : ℕ) (a : Addr) :
    a ∈ r.release s src t ↔ a ∈ r.ips t ∧ ¬(a = src ∧ r.byIP src = some t ∧ t ≠ s) := by
  cases hby : r.byIP src with
  | none => simp [TunRouter.release, hby]
  | some prev =>
    simp only [TunRouter.release, hby, ne_eq, Option.some.injEq]
    by_cases hps : prev = s
    · rw [if_neg (not_not.mpr hps)]
      exact (and_iff_left fun h => h.2.2 (h.2.1.symm.trans hps)).symm
    · rw [if_pos hps]
      by_cases htp : t = prev
      · subst htp
        simp [hps, List.mem_filter]
      · rw [Function.update_of_ne htp]
        exact (and_iff_left fun h => htp h.2.1.symm).symm

/-- The sets after an address has moved to the session `s`. -/
theorem mem_ips_learn {r : TunRouter} (h : r.Inv) {s : ℕ} (hs : s ∈ r.sessions) {src : Addr}
    {packet : Bytes} (hsrc : learnable packet = some src) {t : ℕ} (ht : t ∈ r.sessions) (a : Addr) :
    a ∈ (r.learnFromClientPacket s packet).ips t ↔
      if a = src then t = s else a ∈ r.ips t := by
  have howner := h.mirror t ht a
  simp only [TunRouter.learnFromClientPacket, hsrc, not_not.mpr hs, if_false]
  by_cases hknown : src ∈ r.ips s
  · -- a known address stays where it is
    rw [if_pos hknown]
    split
    · rename_i heq
      rw [howner, heq, (h.mirror s hs src).mp hknown, Option.some.injEq, eq_comm]
    · rfl
  · rw [if_neg hknown]
    dsimp only
    by_cases hts : t = s
    · subst hts
      rw [Function.update_self, List.mem_cons, mem_release]
      split
      · simp [*]
      · simp [*]
    · rw [Function.update_of_ne hts, mem_release]
      split
      · rename_i heq
        subst heq
        refine iff_of_false (fun hmem => hmem.2 ⟨rfl, howner.mp hmem.1, hts⟩) hts
      · rename_i hne
        exact and_iff_left fun hmem => hne hmem.1

/-- The table after a packet of an active session. -/
theorem byIP_learn {r : TunRouter} (h : r.Inv) {s : ℕ} (hs : s ∈ r.sessions) {src : Addr}
    {packet : Bytes} (hsrc : learnable packet = some src) (a : Addr) :
    (r.learnFromClientPacket s packet).byIP a = if a = src then some s else r.byIP a := by
  simp only [TunRouter.learnFromClientPacket, hsrc, not_not.mpr hs, if_false]
  split
  · rename_i hknown
    split
    · rename_i heq
      rw [heq]
      exact (h.mirror s hs src).mp hknown
    · rfl
  · exact Function.update_apply ..

theorem sessions_learn (r : TunRouter) (s : ℕ) (packet : Bytes) :
    (r.learnFromClientPacket s packet).sessions = r.sessions ∧
      (r.learnFromClientPacket s packet).registered = r.registered ∧
      (r.learnFromClientPacket s packet).closed = r.closed := by
  unfold TunRouter.learnFromClientPacket
  split
  · exact ⟨rfl, rfl, rfl⟩
  · split
    · exact ⟨rfl, rfl, rfl⟩
    · split
      · exact ⟨rfl, rfl, rfl⟩
      · exact ⟨rfl, rfl, rfl⟩

/-- A packet that is not learnable, or of a session that is not active, changes nothing. -/
theorem learn_of_not {r : TunRouter} {s : ℕ} {packet : Bytes}
    (h : learnable packet = none ∨ s ∉ r.sessions) : r.learnFromClientPacket s packet = r := by
  unfold TunRouter.learnFromClientPacket
  split
  · rfl
  · rename_i src hsrc
    rw [if_pos (h.resolve_left (by simp [hsrc]))]

theorem TunRouter.Inv.learn {r : TunRouter} (h : r.Inv) (s : ℕ) (packet : Bytes) :
    (r.learnFromClientPacket s packet).Inv := by
  cases hsrc : learnable packet with
  | none => rwa [learn_of_not (.inl hsrc)]
  | some src =>
    by_cases hs : s ∈ r.sessions
    · obtain ⟨hsessions, hregistered, hclosed⟩ := sessions_learn r s packet
      refine ⟨fun t ht a => ?_, fun a t hby => ?_, fun t ht => ?_, fun t ht => ?_⟩
      · rw [hsessions] at ht
        rw [mem_ips_learn h hs hsrc ht, byIP_learn h hs hsrc]
        split
        · rw [Option.some.injEq, eq_comm]
        · exact h.mirror t ht a
      · rw [hsessions]
        rw [byIP_learn h hs hsrc] at hby
        split at hby
        · exact Option.some.inj hby ▸ hs
        · exact h.active a t hby
      · rw [hsessions] at ht
        rw [hregistered]
        exact h.known t ht
      · rw [hclosed] at ht
        rw [hsessions, hregistered]
        exact h.closed t ht
    · rwa [learn_of_not (.inr hs)]

theorem TunRouter.Inv.close {r : TunRouter} (h : r.Inv) (s : ℕ) : (r.close s).Inv := by
  unfold TunRouter.close
  split
  · rename_i hopen
    refine ⟨fun t ht a => ?_, fun a t hby => ?_, fun t ht => ?_, fun t ht => ?_⟩
    · obtain ⟨ht, hne⟩ := List.mem_filter.mp ht
      have hne : t ≠ s := by simpa using hne
      rw [h.mirror t ht a]
      dsimp only
      split
      · rename_i hdel
        rw [hdel.2]
        simp [hne.symm]
      · rfl
    · dsimp only at hby ⊢
      split at hby
      · exact absurd hby (by simp)
      · rename_i hkeep
        have ht := h.active a t hby
        have hne : t ≠ s := by
          rintro rfl
          exact hkeep ⟨(h.mirror t ht a).mpr hby, hby⟩
        exact List.mem_filter.mpr ⟨ht, by simpa using hne⟩
    · exact h.known t (List.mem_filter.mp ht).1
    · rcases List.mem_cons.mp ht with rfl | ht
      · exact ⟨by simp, hopen.1⟩
      · exact ⟨fun hmem => (h.closed t ht).1 (List.mem_filter.mp hmem).1, (h.closed t ht).2⟩
  · exact h

/-- **Every call keeps the invariant.** -/
theorem TunRouter.Inv.step {r : TunRouter} (h : r.Inv) (c : RouterCall) : (r.step c).Inv := by
  cases c with
  | registerSession => exact h.registerSession
  | learnFromClientPacket s packet => exact h.learn s packet
  | close s => exact h.close s

theorem run_concat (calls : List RouterCall) (c : RouterCall) :
    TunRouter.run (calls ++ [c]) = (TunRouter.run calls).step c := by
  simp [TunRouter.run]

theorem inv_run (calls : List RouterCall) : (TunRouter.run calls).Inv := by
  induction calls using List.reverseRecOn with
  | nil => exact inv_new
  | append_singleton calls c ih =>
    rw [run_concat]
    exact ih.step c

/-! ## The latest packet -/

/-- A call that processes a packet puts its session into the table. -/
theorem byIP_of_processes {r : TunRouter} (h : r.Inv) {a : Addr} {s : ℕ} {c : RouterCall}
    (hc : r.Processes a s c) : (r.step c).byIP a = some s := by
  cases c with
  | registerSession => exact hc.elim
  | learnFromClientPacket s' packet =>
    obtain ⟨rfl, hsrc, hs⟩ := hc
    exact (byIP_learn h hs hsrc a).trans (if_pos rfl)
  | close s' => exact hc.elim

/-- Any other call leaves the entry of the address alone or removes it. -/
theorem byIP_of_not_processes {r : TunRouter} (h : r.Inv) {a : Addr} {s : ℕ} {c : RouterCall}
    (hc : ∀ s', ¬r.Processes a s' c) (hby : (r.step c).byIP a = some s) : r.byIP a = some s := by
  cases c with
  | registerSession => exact hby
  | learnFromClientPacket s' packet =>
    cases hsrc : learnable packet with
    | none => rwa [TunRouter.step, learn_of_not (.inl hsrc)] at hby
    | some src =>
      by_cases hs : s' ∈ r.sessions
      · rw [TunRouter.step, byIP_learn h hs hsrc] at hby
        split at hby
        · rename_i heq
          exact absurd ⟨rfl, heq ▸ hsrc, hs⟩ (hc s')
        · exact hby
      · rwa [TunRouter.step, learn_of_not (.inr hs)] at hby
  | close s' =>
    simp only [TunRouter.step, TunRouter.close] at hby
    split at hby
    · dsimp only at hby
      split at hby
      · exact absurd hby (by simp)
      · exact hby
    · exact hby

theorem MostRecent.concat {calls : List RouterCall} {a : Addr} {s : ℕ} (h : MostRecent calls a s)
    {c : RouterCall} (hc : ∀ s', ¬(TunRouter.run calls).Processes a s' c) :
    MostRecent (calls ++ [c]) a s := by
  obtain ⟨k, d, hd, hprocesses, hlater⟩ := h
  have hk : k < calls.length := (List.getElem?_eq_some_iff.mp hd).1
  refine ⟨k, d, ?_, ?_, fun k' c' s' hlt hc' => ?_⟩
  · rwa [List.getElem?_append_left hk]
  · rwa [List.take_append_of_le_length hk.le]
  · by_cases hk' : k' < calls.length
    · rw [List.take_append_of_le_length hk'.le]
      rw [List.getElem?_append_left hk'] at hc'
      exact hlater k' c' s' hlt hc'
    · have hlast : k' = calls.length := by
        have := (List.getElem?_eq_some_iff.mp hc').1
        simp only [List.length_append, List.length_singleton] at this
        omega
      subst hlast
      rw [List.getElem?_concat_length] at hc'
      obtain rfl := Option.some.inj hc'
      rw [List.take_left]
      exact hc s'

/-- An address in the table belongs to the session with the latest packet from it. -/
theorem mostRecent_of_byIP (calls : List RouterCall) {a : Addr} {s : ℕ}
    (hby : (TunRouter.run calls).byIP a = some s) : MostRecent calls a s := by
  induction calls using List.reverseRecOn with
  | nil => exact absurd hby (by simp [TunRouter.run, newTunRouter])
  | append_singleton calls c ih =>
    rw [run_concat] at hby
    by_cases hc : ∃ s', (TunRouter.run calls).Processes a s' c
    · obtain ⟨s', hs'⟩ := hc
      have heq : s' = s :=
        Option.some.inj ((byIP_of_processes (inv_run calls) hs').symm.trans hby)
      subst heq
      refine ⟨calls.length, c, List.getElem?_concat_length, by rwa [List.take_left],
        fun k' c' t hlt hc' => ?_⟩
      have := (List.getElem?_eq_some_iff.mp hc').1
      simp only [List.length_append, List.length_singleton] at this
      omega
    · have hnot : ∀ s', ¬(TunRouter.run calls).Processes a s' c := not_exists.mp hc
      exact (ih (byIP_of_not_processes (inv_run calls) hnot hby)).concat hnot

theorem MostRecent.learnable {calls : List RouterCall} {a : Addr} {s : ℕ}
    (h : MostRecent calls a s) : a.isUnspecified = false ∧ a.isMulticast = false := by
  obtain ⟨k, c, -, hprocesses, -⟩ := h
  cases c with
  | registerSession => exact hprocesses.elim
  | learnFromClientPacket s' packet =>
    obtain ⟨-, hsrc, -⟩ := hprocesses
    unfold Server.learnable at hsrc
    split at hsrc
    · exact absurd hsrc (by simp)
    · split at hsrc
      · exact absurd hsrc (by simp)
      · rename_i hok
        obtain rfl := Option.some.inj hsrc
        simpa using hok
  | close s' => exact hprocesses.elim

/-! ## Closed sessions -/

theorem registered_step (r : TunRouter) (c : RouterCall) :
    (r.step c).registered = r.registered + [c].count .registerSession := by
  cases c with
  | registerSession => rfl
  | learnFromClientPacket s packet => exact (sessions_learn r s packet).2.1
  | close s =>
    simp only [TunRouter.step, TunRouter.close]
    split <;> rfl

theorem registered_run (calls : List RouterCall) :
    (TunRouter.run calls).registered = calls.count .registerSession := by
  induction calls using List.reverseRecOn with
  | nil => rfl
  | append_singleton calls c ih => rw [run_concat, registered_step, ih, List.count_append]

theorem ClosedIn.concat_iff {calls : List RouterCall} {c : RouterCall} {s : ℕ} :
    ClosedIn (calls ++ [c]) s ↔
      ClosedIn calls s ∨ c = .close s ∧ s < calls.count .registerSession := by
  constructor
  · rintro ⟨pre, post, heq, hs⟩
    induction post using List.reverseRecOn with
    | nil =>
      obtain ⟨rfl, hc⟩ := List.append_inj' heq rfl
      exact .inr ⟨List.singleton_inj.mp hc, hs⟩
    | append_singleton post d _ =>
      rw [← List.cons_append, ← List.append_assoc] at heq
      exact .inl ⟨pre, post, (List.append_inj' heq rfl).1, hs⟩
  · rintro (⟨pre, post, rfl, hs⟩ | ⟨rfl, hs⟩)
    · exact ⟨pre, post ++ [c], by simp, hs⟩
    · exact ⟨calls, [], rfl, hs⟩

/-- The list of closed sessions is what the calls say. -/
theorem mem_closed_run (calls : List RouterCall) (s : ℕ) :
    s ∈ (TunRouter.run calls).closed ↔ ClosedIn calls s := by
  induction calls using List.reverseRecOn with
  | nil =>
    refine iff_of_false (by simp [TunRouter.run, newTunRouter]) ?_
    rintro ⟨pre, post, heq, -⟩
    simp at heq
  | append_singleton calls c ih =>
    rw [run_concat, ClosedIn.concat_iff, ← ih, ← registered_run]
    cases c with
    | registerSession => simp [TunRouter.step, TunRouter.registerSession]
    | learnFromClientPacket t packet =>
      rw [TunRouter.step, (sessions_learn _ t packet).2.2]
      simp
    | close t =>
      simp only [TunRouter.step, TunRouter.close, RouterCall.close.injEq]
      split
      · rename_i hopen
        rw [List.mem_cons]
        constructor
        · rintro (rfl | hs)
          · exact .inr ⟨rfl, hopen.1⟩
          · exact .inl hs
        · rintro (hs | ⟨rfl, -⟩)
          · exact .inr hs
          · exact .inl rfl
      · rename_i hopen
        refine ⟨.inl, ?_⟩
        rintro (hs | ⟨rfl, hs⟩)
        · exact hs
        · exact not_not.mp fun hout => hopen ⟨hs, hout⟩

/-- A session is active from its registration to its `Close`. -/
theorem mem_sessions_run (calls : List RouterCall) (s : ℕ) :
    s ∈ (TunRouter.run calls).sessions ↔
      s < calls.count .registerSession ∧ ¬ClosedIn calls s := by
  rw [← mem_closed_run, ← registered_run]
  induction calls using List.reverseRecOn with
  | nil => simp [TunRouter.run, newTunRouter]
  | append_singleton calls c ih =>
    have h := inv_run calls
    rw [run_concat]
    cases c with
    | registerSession =>
      simp only [TunRouter.step, TunRouter.registerSession, List.mem_cons, ih]
      constructor
      · rintro (rfl | ⟨hlt, hout⟩)
        · exact ⟨Nat.lt_succ_self _, fun hs => Nat.lt_irrefl _ (h.closed _ hs).2⟩
        · exact ⟨Nat.lt_succ_of_lt hlt, hout⟩
      · rintro ⟨hlt, hout⟩
        rcases Nat.lt_succ_iff_lt_or_eq.mp hlt with hlt | heq
        · exact .inr ⟨hlt, hout⟩
        · exact .inl heq
    | learnFromClientPacket t packet =>
      obtain ⟨hsessions, hregistered, hclosed⟩ := sessions_learn (TunRouter.run calls) t packet
      rw [TunRouter.step, hsessions, hregistered, hclosed]
      exact ih
    | close t =>
      simp only [TunRouter.step, TunRouter.close]
      split
      · simp only [List.mem_filter, ih, List.mem_cons, decide_eq_true_eq, ne_eq, not_or]
        tauto
      · exact ih

/-- No packet is routed to a session that is not active. -/
theorem sessionForPacket_ne {r : TunRouter} (h : r.Inv) {s : ℕ} (hout : s ∉ r.sessions)
    (packet : Bytes) : r.sessionForPacket packet ≠ some s := by
  have hsingle : r.singleSession ≠ some s := by
    unfold TunRouter.singleSession
    split
    · simp
    · exact fun hhead => hout (List.mem_of_mem_head? hhead)
  unfold TunRouter.sessionForPacket
  split
  · exact hsingle
  · split
    · rename_i t ht
      exact fun heq => hout (h.active _ s (ht.trans heq))
    · exact hsingle

/-- **The table of client addresses.** After any interleaving of the calls the active sessions are
those that have been registered and not closed since; the table and the sets of the active sessions
are mirror images; every session in the table is active; after `Close` has been called on a
registered session no packet is routed to it, neither by address nor as the only session; and an
address in the table belongs to the session that has processed the latest packet from it. -/
theorem clientTable_correct (calls : List RouterCall) :
    (∀ s, s ∈ (TunRouter.run calls).sessions ↔
      s < calls.count .registerSession ∧ ¬ClosedIn calls s) ∧
    (∀ s ∈ (TunRouter.run calls).sessions, ∀ a,
      a ∈ (TunRouter.run calls).ips s ↔ (TunRouter.run calls).byIP a = some s) ∧
    (∀ a s, (TunRouter.run calls).byIP a = some s → s ∈ (TunRouter.run calls).sessions) ∧
    (∀ pre s post, calls = pre ++ .close s :: post → s < pre.count .registerSession →
      (∀ a, (TunRouter.run calls).byIP a ≠ some s) ∧
      ∀ packet, (TunRouter.run calls).sessionForPacket packet ≠ some s) ∧
    (∀ a s, (TunRouter.run calls).byIP a = some s →
      a.isUnspecified = false ∧ a.isMulticast = false ∧ MostRecent calls a s) := by
  have h := inv_run calls
  refine ⟨mem_sessions_run calls, h.mirror, h.active, fun pre s post heq hs => ?_,
    fun a s hby => ?_⟩
  · have hout : s ∉ (TunRouter.run calls).sessions := fun hmem =>
      ((mem_sessions_run calls s).mp hmem).2 ⟨pre, post, heq, hs⟩
    exact ⟨fun a hby => hout (h.active a s hby), fun packet => sessionForPacket_ne h hout packet⟩
  · have hrecent := mostRecent_of_byIP calls hby
    exact ⟨hrecent.learnable.1, hrecent.learnable.2, hrecent⟩

end ObsidianVPN.Server
