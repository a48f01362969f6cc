import ObsidianVPN.Tun.Plan

/-!
# The route manager

`refresh` resolves the domains, plans the routes and adds the missing ones; `close` removes what was
added. The phases of the calls are critical sections of one mutex, with steps of other calls between
them.

* `RouteManager`, `addLocked`, `apply`: the code; `Call` is a call of the operations it is given;
* `System`, `Action`, `System.step`: the interleaving of any number of `refresh` and `close` calls;
* `addAll_inv`, **`Inv.step`**: what every step keeps;
* **`cleanup_exact`**: each route is added at most once, none is added after the first `close` has
  begun, and it deletes what was added in reverse order.
-/

namespace ObsidianVPN.Tun

open ByteStr GoString Netip

/-- A route; `dest` is the field `prefix` of the source. -/
structure Route where
  dest : Prefix
  viaTun : Bool
  deriving DecidableEq

structure RouteManager where
  mode : SplitMode
  entries : List Bytes
  dns : Bytes
  ipv6 : Bool
  servers : List Bytes
  applied : List Route
  set : List Route
  resolved : Bytes → List Bytes
  closed : Bool

/-- `newRouteManager`, with the addresses that `resolveServer` has found. -/
def newRouteManager (mode : SplitMode) (entries : List Bytes) (dns : Bytes) (ipv6 : Bool)
    (servers : List Bytes) : RouteManager where
  mode := mode
  entries := entries
  dns := dns
  ipv6 := ipv6
  servers := servers
  applied := []
  set := []
  resolved := fun _ => []
  closed := false

/-- A call of the route operations. -/
inductive Call where
  | add (r : Route) (ok : Bool)
  | del (r : Route)
  deriving DecidableEq

/-- `addLocked`, with the result of `ops.add`. -/
def RouteManager.addLocked (m : RouteManager) (r : Route) (ok : Bool) : List Call × RouteManager :=
  if r ∈ m.set then ([], m)
  else if ok then
    ([.add r true], { m with set := m.set ++ [r], applied := m.applied ++ [r] })
  else ([.add r false], m)

def RouteManager.addAll (m : RouteManager) : List (Route × Bool) → List Call × RouteManager
  | [] => ([], m)
  | (r, ok) :: rs =>
    let first := m.addLocked r ok
    let rest := first.2.addAll rs
    (first.1 ++ rest.1, rest.2)

/-- The routes of a plan in the order of `apply`; the call of `ops.add` for the `k`-th one succeeds
if `ok k`. -/
def Plan.routes (plan : Plan) (ok : ℕ → Bool) : List (Route × Bool) :=
  let routes := plan.viaGateway.map (Route.mk · false) ++ plan.viaTun.map (Route.mk · true)
  routes.zipIdx.map fun (r, k) => (r, ok k)

def RouteManager.apply (m : RouteManager) (plan : Plan) (ok : ℕ → Bool) : List Call × RouteManager :=
  if m.closed then ([], m) else m.addAll (plan.routes ok)

/-- The answers to the queries of one `refresh`: what a name resolves to, and whether the answer
for the name with `www.` comes first. -/
structure Lookups where
  lookup : Bytes → Option (List Bytes)
  wwwFirst : Bytes → Bool

/-- The addresses that a host has got. -/
def Lookups.fresh (q : Lookups) (h : Bytes) : Option (List Bytes) :=
  let plain := q.lookup h
  let www := if (ascii "www.").isPrefixOf h then none else q.lookup (ascii "www." ++ h)
  match plain, www with
  | none, none => none
  | some ips, none => some ips
  | none, some ips => some ips
  | some ips, some ips' => some (if q.wwwFirst h then ips' ++ ips else ips ++ ips')

section Refresh

variable (N : NetText)

/-- The first critical section of `refresh`, and the plan made after it. -/
def RouteManager.commit (m : RouteManager) (q : Lookups) : Option Plan × RouteManager :=
  if m.closed then (none, m)
  else
    let hosts := if m.mode = .splitModeOff then [] else (domainEntries N m.entries).1
    let m := { m with resolved := fun h =>
      if h ∈ hosts then (q.fresh h).getD (m.resolved h) else m.resolved h }
    (some (planRoutes N ⟨m.mode, m.entries, m.resolved, m.dns, m.servers, m.ipv6⟩), m)

end Refresh

/-- The first critical section of `close`: whether this call goes on. -/
def RouteManager.closeMark (m : RouteManager) : Bool × RouteManager :=
  if m.closed then (false, m) else (true, { m with closed := true })

/-- The second critical section of `close`. -/
def RouteManager.closeDelete (m : RouteManager) : List Call × RouteManager :=
  (m.applied.reverse.map .del, { m with applied := [], set := [] })

/-! ## Interleavings -/

/-- The manager, the plans of the `refresh` calls that have not applied theirs yet, the stage of the
first `close` call, and all calls of the operations so far. -/
structure System where
  manager : RouteManager
  pending : List Plan
  /-- The first `close` call is between its two sections. -/
  closing : Bool
  /-- The first `close` call has returned. -/
  returned : Bool
  log : List Call

inductive Action where
  /-- A `refresh` call has resolved the domains and plans the routes. -/
  | commit (q : Lookups)
  /-- The `refresh` call with the `k`-th pending plan applies it. -/
  | apply (k : ℕ) (ok : ℕ → Bool)
  /-- A `close` call begins. -/
  | closeMark
  /-- The first `close` call deletes the routes and returns. -/
  | closeDelete

def System.start (m : RouteManager) : System := ⟨m, [], false, false, []⟩

section Steps

variable (N : NetText)

def System.step (s : System) : Action → System
  | .commit q =>
    let r := s.manager.commit N q
    { s with manager := r.2, pending := s.pending ++ r.1.toList }
  | .apply k ok =>
    match s.pending[k]? with
    | none => s
    | some plan =>
      let r := s.manager.apply plan ok
      { s with manager := r.2, pending := s.pending.eraseIdx k, log := s.log ++ r.1 }
  | .closeMark =>
    let r := s.manager.closeMark
    { s with manager := r.2, closing := s.closing || r.1 }
  | .closeDelete =>
    if s.closing then
      let r := s.manager.closeDelete
      { s with manager := r.2, closing := false, returned := true, log := s.log ++ r.1 }
    else s

def System.run (s : System) (actions : List Action) : System := actions.foldl (System.step N) s

end Steps

/-- The routes of the calls of `ops.add`. -/
def attempted (log : List Call) : List Route :=
  log.filterMap fun | .add r _ => some r | .del _ => none

/-- The routes that have been added. -/
def added (log : List Call) : List Route :=
  log.filterMap fun | .add r true => some r | _ => none

/-- The routes that have been deleted. -/
def deleted (log : List Call) : List Route :=
  log.filterMap fun | .del r => some r | _ => none

theorem added_append (log log' : List Call) : added (log ++ log') = added log ++ added log' :=
  List.filterMap_append

theorem deleted_append (log log' : List Call) : deleted (log ++ log') = deleted log ++ deleted log' :=
  List.filterMap_append

@[simp] theorem added_map_del (rs : List Route) : added (rs.map .del) = [] := by
  simp [added, List.filterMap_map]

@[simp] theorem deleted_map_del (rs : List Route) : deleted (rs.map .del) = rs := by
  simp [deleted, List.filterMap_map]

@[simp] theorem attempted_append_map_del (log : List Call) (rs : List Route) :
    attempted (log ++ rs.map .del) = attempted log := by
  simp [attempted, List.filterMap_append, List.filterMap_map]

/-! ## Adding routes -/

/-- What `addLocked` does to the record of routes. -/
theorem addLocked_spec (m : RouteManager) (r : Route) (ok : Bool) :
    deleted (m.addLocked r ok).1 = [] ∧
    (m.addLocked r ok).2.applied = m.applied ++ added (m.addLocked r ok).1 ∧
    (m.addLocked r ok).2.set = m.set ++ added (m.addLocked r ok).1 ∧
    (m.addLocked r ok).2.closed = m.closed ∧
    (added (m.addLocked r ok).1 = [] ∨ added (m.addLocked r ok).1 = [r] ∧ r ∉ m.set) := by
  unfold RouteManager.addLocked
  split
  · simp [added, deleted]
  · rename_i hr
    split <;> simp [added, deleted, hr]

/-- The routes added are new, and the record is kept up to date. -/
theorem addAll_spec (m : RouteManager) (hset : m.set = m.applied) (hnodup : m.applied.Nodup)
    (rs : List (Route × Bool)) :
    deleted (m.addAll rs).1 = [] ∧
    (m.addAll rs).2.applied = m.applied ++ added (m.addAll rs).1 ∧
    (m.addAll rs).2.set = (m.addAll rs).2.applied ∧ (m.addAll rs).2.applied.Nodup ∧
    (m.addAll rs).2.closed = m.closed := by
  induction rs generalizing m with
  | nil => simp [RouteManager.addAll, added, deleted, hset, hnodup]
  | cons a rs ih =>
    obtain ⟨r, ok⟩ := a
    obtain ⟨hdel, happ, hset', hclosed, hnew⟩ := addLocked_spec m r ok
    have hsame : (m.addLocked r ok).2.set = (m.addLocked r ok).2.applied := by
      rw [hset', happ, hset]
    have hnodup' : (m.addLocked r ok).2.applied.Nodup := by
      rw [happ]
      rcases hnew with hnone | ⟨hone, hr⟩
      · rw [hnone, List.append_nil]
        exact hnodup
      · rw [hone]
        exact List.nodup_append.mpr ⟨hnodup, List.nodup_singleton r, fun b hb c hc hbc => by
          rw [List.mem_singleton.mp hc] at hbc
          exact hr (hset ▸ hbc ▸ hb)⟩
    obtain ⟨hdel', happ', hset'', hnodup'', hclosed'⟩ := ih _ hsame hnodup'
    refine ⟨?_, ?_, hset'', hnodup'', hclosed'.trans hclosed⟩
    · simp only [RouteManager.addAll, deleted_append, hdel, hdel', List.append_nil]
    · simp only [RouteManager.addAll, added_append, happ', happ, List.append_assoc]

/-! ## The invariant -/

/-- **The invariant of an interleaving.** -/
structure System.Inv (s : System) : Prop where
  set_eq : s.manager.set = s.manager.applied
  applied : s.manager.applied = if s.returned then [] else added s.log
  nodup : (added s.log).Nodup
  deleted : deleted s.log = if s.returned then (added s.log).reverse else []
  closing : s.closing = true → s.manager.closed = true ∧ s.returned = false
  returned : s.returned = true → s.manager.closed = true
  closed : s.manager.closed = true → s.closing = true ∨ s.returned = true

theorem inv_start {m : RouteManager} (happ : m.applied = []) (hset : m.set = [])
    (hopen : m.closed = false) : (System.start m).Inv := by
  refine ⟨?_, ?_, ?_, ?_, ?_, ?_, ?_⟩ <;>
    simp [System.start, happ, hset, hopen, added, Tun.deleted]

variable {N : NetText}

theorem commit_manager (m : RouteManager) (q : Lookups) :
    (m.commit N q).2.set = m.set ∧ (m.commit N q).2.applied = m.applied ∧
      (m.commit N q).2.closed = m.closed := by
  unfold RouteManager.commit
  split
  · exact ⟨rfl, rfl, rfl⟩
  · exact ⟨rfl, rfl, rfl⟩

section Stages

variable {s : System} (h : s.Inv)

include h

theorem System.Inv.returned_of_open (hopen : ¬ s.manager.closed = true) : s.returned = false := by
  by_contra hr
  exact hopen (h.returned (by simpa using hr))

/-- Before the first `close` returns, the manager lists what has been added and nothing is deleted. -/
theorem System.Inv.before_return (hret : s.returned = false) :
    s.manager.applied = Tun.added s.log ∧ Tun.deleted s.log = [] := by
  have happ := h.applied
  have hdeleted := h.deleted
  rw [hret] at happ hdeleted
  exact ⟨happ, hdeleted⟩

/-- The routes of a plan are added by an open manager. -/
theorem System.Inv.addAll (hopen : ¬ s.manager.closed = true) (routes : List (Route × Bool))
    (pending : List Plan) :
    System.Inv { s with
      manager := (s.manager.addAll routes).2
      pending := pending
      log := s.log ++ (s.manager.addAll routes).1 } := by
  have hret := h.returned_of_open hopen
  obtain ⟨happ, hdeleted⟩ := h.before_return hret
  obtain ⟨hdel, happ', hset', hnodup', hclosed'⟩ :=
    addAll_spec s.manager h.set_eq (happ ▸ h.nodup) routes
  have hadded : (s.manager.addAll routes).2.applied =
      Tun.added (s.log ++ (s.manager.addAll routes).1) := by
    rw [happ', happ, added_append]
  refine ⟨hset', ?_, hadded ▸ hnodup', ?_, ?_, ?_, ?_⟩
  · simpa [hret] using hadded
  · simpa [hret, deleted_append, hdel] using hdeleted
  · exact fun hc => ⟨hclosed'.trans (h.closing hc).1, hret⟩
  · exact fun hr => absurd (hret.symm.trans hr) (by simp)
  · exact fun hc => h.closed (hclosed'.symm.trans hc)

end Stages

/-- **Every step keeps the invariant.** -/
theorem System.Inv.step {s : System} (h : s.Inv) (a : Action) : (s.step N a).Inv := by
  cases a with
  | commit q =>
    obtain ⟨hset, happ, hclosed⟩ := commit_manager (N := N) s.manager q
    exact ⟨hset.trans (h.set_eq.trans happ.symm), happ.trans h.applied, h.nodup, h.deleted,
      fun hc => ⟨hclosed.trans (h.closing hc).1, (h.closing hc).2⟩,
      fun hr => hclosed.trans (h.returned hr), fun hc => h.closed (hclosed.symm.trans hc)⟩
  | apply k ok =>
    simp only [System.step]
    split
    · exact h
    · rename_i plan hplan
      unfold RouteManager.apply
      split
      · simpa using ⟨h.set_eq, h.applied, h.nodup, h.deleted, h.closing, h.returned, h.closed⟩
      · exact h.addAll ‹_› (plan.routes ok) _
  | closeMark =>
    simp only [System.step, RouteManager.closeMark]
    split
    · simpa using ⟨h.set_eq, h.applied, h.nodup, h.deleted, h.closing, h.returned, h.closed⟩
    · rename_i hopen
      exact ⟨h.set_eq, h.applied, h.nodup, h.deleted, fun _ => ⟨rfl, h.returned_of_open hopen⟩,
        fun _ => rfl, fun _ => .inl (Bool.or_true _)⟩
  | closeDelete =>
    simp only [System.step]
    split
    · rename_i hclosing
      obtain ⟨hclosed, hret⟩ := h.closing hclosing
      obtain ⟨happ, hdeleted⟩ := h.before_return hret
      refine ⟨rfl, rfl, ?_, ?_, by simp, fun _ => hclosed, fun _ => .inr rfl⟩
      · rw [RouteManager.closeDelete, added_append, added_map_del, List.append_nil]
        exact h.nodup
      · rw [RouteManager.closeDelete, added_append, added_map_del, deleted_append, deleted_map_del,
          hdeleted, happ, List.append_nil]
        rfl
    · exact h

theorem System.Inv.run {s : System} (h : s.Inv) (actions : List Action) : (s.run N actions).Inv := by
  induction actions generalizing s with
  | nil => exact h
  | cons a actions ih => exact ih (h.step a)

/-- One step after the first `close` has begun. -/
theorem step_of_closed {s : System} (h : s.Inv) (hclosed : s.manager.closed = true) (a : Action) :
    (s.step N a).manager.closed = true ∧ attempted (s.step N a).log = attempted s.log ∧
      (s.returned = true → (s.step N a).returned = true ∧ (s.step N a).log = s.log) := by
  cases a with
  | commit q =>
    exact ⟨(commit_manager s.manager q).2.2.trans hclosed, rfl, fun hr => ⟨hr, rfl⟩⟩
  | apply k ok =>
    simp only [System.step]
    split
    · exact ⟨hclosed, rfl, fun hr => ⟨hr, rfl⟩⟩
    · simp [RouteManager.apply, hclosed]
  | closeMark => simp [System.step, RouteManager.closeMark, hclosed]
  | closeDelete =>
    simp only [System.step]
    split
    · rename_i hclosing
      refine ⟨hclosed, attempted_append_map_del _ _, fun hr => ?_⟩
      exact absurd ((h.closing hclosing).2.symm.trans hr) (by simp)
    · exact ⟨hclosed, rfl, fun hr => ⟨hr, rfl⟩⟩

/-- After the first `close` has begun no route is added, and after it has returned nothing more
happens to the routes. -/
theorem run_of_closed {s : System} (h : s.Inv) (hclosed : s.manager.closed = true)
    (actions : List Action) :
    (s.run N actions).manager.closed = true ∧ attempted (s.run N actions).log = attempted s.log ∧
      (s.returned = true → (s.run N actions).returned = true ∧ (s.run N actions).log = s.log) := by
  induction actions generalizing s with
  | nil => exact ⟨hclosed, rfl, fun hr => ⟨hr, rfl⟩⟩
  | cons a actions ih =>
    obtain ⟨hclosed', hattempted, hreturned⟩ := step_of_closed h hclosed a
    obtain ⟨hclosed'', hattempted', hreturned'⟩ := ih (h.step a) hclosed'
    refine ⟨hclosed'', hattempted'.trans hattempted, fun hr => ?_⟩
    obtain ⟨hr', hlog⟩ := hreturned hr
    obtain ⟨hr'', hlog'⟩ := hreturned' hr'
    exact ⟨hr'', hlog'.trans hlog⟩

theorem System.run_append (s : System) (pre post : List Action) :
    s.run N (pre ++ post) = (s.run N pre).run N post := List.foldl_append

/-- A `close` call that has begun has closed the manager. -/
theorem closed_of_closeMark {s : System} (h : s.Inv) {actions : List Action}
    (hmem : .closeMark ∈ actions) : (s.run N actions).manager.closed = true := by
  obtain ⟨pre, post, rfl⟩ := List.append_of_mem hmem
  have hmark : ((s.run N pre).step N .closeMark).manager.closed = true := by
    simp only [System.step, RouteManager.closeMark]
    split
    · assumption
    · rfl
  rw [System.run_append]
  exact (run_of_closed ((h.run pre).step .closeMark) hmark post).1

/-- The second section of a `close` call that has begun makes the first `close` return. -/
theorem returned_of_closeDelete {s : System} (h : s.Inv) (hclosed : s.manager.closed = true)
    {actions : List Action} (hmem : .closeDelete ∈ actions) : (s.run N actions).returned = true := by
  obtain ⟨pre, post, rfl⟩ := List.append_of_mem hmem
  have hinv : (s.run N pre).Inv := h.run pre
  have hpre : (s.run N pre).manager.closed = true := (run_of_closed h hclosed pre).1
  have hdelete : ((s.run N pre).step N .closeDelete).returned = true := by
    simp only [System.step]
    split
    · rfl
    · rename_i hclosing
      exact (hinv.closed hpre).resolve_left hclosing
  rw [System.run_append]
  exact ((run_of_closed (hinv.step .closeDelete) (step_of_closed hinv hpre .closeDelete).1
    post).2.2 hdelete).1

/-- **The clean-up is exact.** In every interleaving of `refresh` and `close` calls each route is
added at most once; a `close` call that has begun has closed the manager, and from then on no route
is added; when it has gone through its second section it has returned, and the routes deleted are
those that were added, in reverse order; before that none is deleted; and any other `close` call
does nothing at all. -/
theorem cleanup_exact (N : NetText) (mode : SplitMode) (entries : List Bytes) (dns : Bytes)
    (ipv6 : Bool) (servers : List Bytes) (pre post : List Action) :
    let s₀ := System.start (newRouteManager mode entries dns ipv6 servers)
    let s := s₀.run N pre
    let s' := s₀.run N (pre ++ post)
    (added s'.log).Nodup ∧
    (.closeMark ∈ pre → s.manager.closed = true) ∧
    (.closeMark ∈ pre → .closeDelete ∈ post →
      s'.returned = true ∧ deleted s'.log = (added s'.log).reverse) ∧
    (s.manager.closed = true → attempted s'.log = attempted s.log) ∧
    deleted s'.log = (if s'.returned then (added s'.log).reverse else []) ∧
    (s.returned = true → s'.returned = true ∧ s'.log = s.log) ∧
    (s.manager.closed = true → s.step N .closeMark = s) := by
  intro s₀ s s'
  have hs₀ : s₀.Inv := inv_start rfl rfl rfl
  have hs : s.Inv := hs₀.run pre
  have hs' : s'.Inv := hs₀.run (pre ++ post)
  have happend : s' = s.run N post := System.run_append s₀ pre post
  refine ⟨hs'.nodup, fun hmark => closed_of_closeMark hs₀ hmark, fun hmark hdelete => ?_,
    fun hclosed => ?_, hs'.deleted, fun hr => ?_, fun hclosed => ?_⟩
  · have hret : s'.returned = true := by
      rw [happend]
      exact returned_of_closeDelete hs (closed_of_closeMark hs₀ hmark) hdelete
    refine ⟨hret, ?_⟩
    rw [hs'.deleted, if_pos hret]
  · rw [happend]
    exact (run_of_closed hs hclosed post).2.1
  · rw [happend]
    exact (run_of_closed hs (hs.returned hr) post).2.2 hr
  · simp [System.step, RouteManager.closeMark, hclosed]

end ObsidianVPN.Tun
