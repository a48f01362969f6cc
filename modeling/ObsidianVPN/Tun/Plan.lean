import ObsidianVPN.Lib.GoString
import ObsidianVPN.Lib.LongestPrefix
import ObsidianVPN.Lib.Netip

/-!
# The route planner

`planRoutes` turns the settings of a split tunnel into two lists of prefixes, those that go through
the TUN and those that go through the original gateway. The system reads both lists as one table
with longest-prefix match.

* `hostKey`, `entryPrefix`, `normalizePrefix`, `ipToPrefix`, `domainEntries`, `planRoutes`: the code,
  for the parsers of the standard library (`NetText`);
* `Listed`, `IsServer`, `IsDNS`: what the settings ask for, apart from the lists;
* `mem_viaTun`, `mem_viaGateway`: what is in the lists;
* `Intended`: the table sends every address where the settings want it;
* **`intended_iff`**: it does, except that an entry of exclude mode may be as short as the default
  routes, or be the DNS server.
-/

namespace ObsidianVPN.Tun

open ByteStr GoString Netip LongestPrefix

/-- The functions of the standard library that read texts. A zone is dropped, as `PrefixFrom` drops
it. -/
structure NetText where
  parsePrefix : Bytes → Option Prefix
  parseAddr : Bytes → Option Addr
  toLower : Bytes → Bytes

/-- The split tunnel modes; any other text is `unknown`. -/
inductive SplitMode where
  | splitModeOff
  | splitModeInclude
  | splitModeExclude
  | unknown
  deriving DecidableEq

def defaultRoutesV4 : List Prefix :=
  [⟨.v4 0x00000000#32, 1, by decide⟩, ⟨.v4 0x80000000#32, 1, by decide⟩]

def defaultRoutesV6 : List Prefix :=
  [⟨.v6 0#128, 1, by decide⟩, ⟨.v6 0x80000000000000000000000000000000#128, 1, by decide⟩]

def defaultRoutes : List Prefix := defaultRoutesV4 ++ defaultRoutesV6

theorem bits_sub_le (p : Prefix) : p.bits - 96 ≤ p.addr.unmap.bitLen := by
  have h := p.bits_le
  have h₁ : p.addr.bitLen ≤ 128 := by cases p.addr <;> simp [Addr.bitLen]
  have h₂ : 32 ≤ p.addr.unmap.bitLen := by cases p.addr.unmap <;> simp [Addr.bitLen]
  omega

def normalizePrefix (p : Prefix) : Prefix :=
  if p.addr.is4In6 then (⟨p.addr.unmap, p.bits - 96, bits_sub_le p⟩ : Prefix).masked else p.masked

def ipToPrefix (ip : Bytes) : Option Prefix := (Addr.fromSlice ip).map fun a => .host a.unmap

/-- The arguments of `planRoutes`. -/
structure PlanArgs where
  mode : SplitMode
  entries : List Bytes
  resolved : Bytes → List Bytes
  dns : Bytes
  serverIPs : List Bytes
  ipv6 : Bool

structure Plan where
  viaTun : List Prefix
  viaGateway : List Prefix

def Plan.addGW (plan : Plan) (p : Prefix) : Plan :=
  if p ∈ plan.viaGateway then plan else { plan with viaGateway := plan.viaGateway ++ [p] }

def Plan.addTun (servers : List Prefix) (plan : Plan) (p : Prefix) : Plan :=
  if p ∈ plan.viaTun ∨ p ∈ servers then plan else { plan with viaTun := plan.viaTun ++ [p] }

def keep (ipv6 : Bool) (p : Prefix) : Bool := ipv6 || p.addr.is4

section Planner

variable (N : NetText)

def hostKey (raw : Bytes) : Bytes :=
  let d := N.toLower (trimSpace raw)
  let d := trimPrefix (ascii "http://") d
  let d := trimPrefix (ascii "https://") d
  let d := cutAny (ascii "/:?#") d
  let d := trimPrefix (ascii "*.") d
  let d := trimPrefix (ascii ".") d
  trimSuffix (ascii ".") d

def entryPrefix (entry : Bytes) : Option Prefix :=
  let entry := trimSpace entry
  match N.parsePrefix entry with
  | some p => some (normalizePrefix p)
  | none => (N.parseAddr entry).map fun a => .host a.unmap

/-- An empty line or a comment. -/
def skipped (e : Bytes) : Bool := e.isEmpty || (ascii "#").isPrefixOf e

/-- The host names that have to be resolved and the entries that cannot be. -/
def domainEntries (entries : List Bytes) : List Bytes × List Bytes :=
  entries.foldl (fun (hosts, unresolvable) e =>
    let e := trimSpace e
    if skipped e then (hosts, unresolvable)
    else if (entryPrefix N e).isSome then (hosts, unresolvable)
    else
      let h := hostKey N e
      if h = [] then (hosts, unresolvable)
      else if 0x2e ∉ h then (hosts, unresolvable ++ [e])
      else if h ∈ hosts then (hosts, unresolvable)
      else (hosts ++ [h], unresolvable)) ([], [])

/-- The prefixes of one entry: its own, or those of the addresses of its host. -/
def entryPrefixes (x : PlanArgs) (e : Bytes) : List Prefix :=
  let e := trimSpace e
  if skipped e then []
  else
    match entryPrefix N e with
    | some p => if keep x.ipv6 p then [p] else []
    | none => (x.resolved (hostKey N e)).filterMap fun ip => (ipToPrefix ip).filter (keep x.ipv6)

/-- The prefixes coming from the user entries and from resolved domains. -/
def splitPrefixes (x : PlanArgs) : List Prefix :=
  if x.mode = .splitModeInclude ∨ x.mode = .splitModeExclude then
    x.entries.flatMap (entryPrefixes N x)
  else []

def serverPrefixes (serverIPs : List Bytes) : List Prefix := serverIPs.filterMap ipToPrefix

def planRoutes (x : PlanArgs) : Plan :=
  let servers := serverPrefixes x.serverIPs
  let plan := servers.foldl Plan.addGW ⟨[], []⟩
  let split := splitPrefixes N x
  let addDefaults := fun (plan : Plan) => defaultRoutes.foldl (Plan.addTun servers) plan
  let plan :=
    match x.mode with
    | .splitModeInclude => split.foldl (Plan.addTun servers) plan
    | .splitModeExclude => split.foldl Plan.addGW (addDefaults plan)
    | _ => addDefaults plan
  match N.parseAddr (trimSpace x.dns) with
  | none => plan
  | some a =>
    let p := Prefix.host a.unmap
    if keep x.ipv6 p then plan.addTun servers p else plan

/-! ## What the settings ask for -/

/-- A kept entry, or a kept address of a listed domain. -/
def Listed (x : PlanArgs) (p : Prefix) : Prop :=
  ∃ e ∈ x.entries, skipped (trimSpace e) = false ∧ keep x.ipv6 p = true ∧
    (entryPrefix N (trimSpace e) = some p ∨
      entryPrefix N (trimSpace e) = none ∧
        ∃ ip ∈ x.resolved (hostKey N (trimSpace e)), ipToPrefix ip = some p)

/-- Some entry covers the address. -/
def Covered (x : PlanArgs) (a : Addr) : Prop := ∃ p, Listed N x p ∧ p.contains a.unmap

def IsServer (x : PlanArgs) (a : Addr) : Prop :=
  ∃ ip ∈ x.serverIPs, ∃ b, Addr.fromSlice ip = some b ∧ b.unmap = a.unmap

/-- The address is the DNS server, which is kept. -/
def IsDNS (x : PlanArgs) (a : Addr) : Prop :=
  keep x.ipv6 (.host a.unmap) = true ∧ ∃ b, N.parseAddr (trimSpace x.dns) = some b ∧ b.unmap = a.unmap

/-- The table sends the address through the TUN. -/
def SendsTun (x : PlanArgs) (a : Addr) : Prop :=
  Sends Prefix.contains Prefix.bits (planRoutes N x).viaTun (planRoutes N x).viaGateway a.unmap

def SendsGateway (x : PlanArgs) (a : Addr) : Prop :=
  Sends Prefix.contains Prefix.bits (planRoutes N x).viaGateway (planRoutes N x).viaTun a.unmap

/-- Neither a server nor the DNS server. -/
def Other (x : PlanArgs) (a : Addr) : Prop := ¬IsServer x a ∧ ¬IsDNS N x a

/-- **The table does what the settings ask for.** -/
structure Intended (x : PlanArgs) : Prop where
  disjoint : ∀ p ∈ (planRoutes N x).viaTun, p ∉ (planRoutes N x).viaGateway
  server : ∀ a, IsServer x a → SendsGateway N x a
  dns : ∀ a, IsDNS N x a → ¬IsServer x a → SendsTun N x a
  full : x.mode ≠ .splitModeInclude → x.mode ≠ .splitModeExclude → ∀ a, Other N x a → SendsTun N x a
  exclude : x.mode = .splitModeExclude → ∀ a, Other N x a →
    (SendsGateway N x a ↔ Covered N x a) ∧ (SendsTun N x a ↔ ¬Covered N x a)
  included : x.mode = .splitModeInclude → ∀ a, Other N x a → (SendsTun N x a ↔ Covered N x a)

/-- No entry of exclude mode is as short as a default route without a longer one in its place, and
none is the DNS server. -/
structure ExcludeSafe (x : PlanArgs) : Prop where
  noHalf : ∀ p, Listed N x p → p.bits ≠ 1
  dns : ∀ a, IsDNS N x a → ¬IsServer x a → ¬Listed N x (.host a.unmap)
  longer : ∀ a, Other N x a → ∀ p, Listed N x p → p.bits = 0 → p.contains a.unmap →
    ∃ q, Listed N x q ∧ 1 < q.bits ∧ q.contains a.unmap

end Planner

/-! ## The lists -/

theorem viaGateway_foldl_addGW (l : List Prefix) (plan : Plan) (p : Prefix) :
    p ∈ (l.foldl Plan.addGW plan).viaGateway ↔ p ∈ plan.viaGateway ∨ p ∈ l := by
  induction l generalizing plan with
  | nil => simp
  | cons q l ih =>
    have hstep : p ∈ (plan.addGW q).viaGateway ↔ p ∈ plan.viaGateway ∨ p = q := by
      unfold Plan.addGW
      split
      · rename_i hq
        exact (or_iff_left_of_imp fun heq => heq ▸ hq).symm
      · simp
    rw [List.foldl_cons, ih, hstep, List.mem_cons, or_assoc]

theorem viaTun_foldl_addGW (l : List Prefix) (plan : Plan) :
    (l.foldl Plan.addGW plan).viaTun = plan.viaTun := by
  induction l generalizing plan with
  | nil => rfl
  | cons q l ih =>
    rw [List.foldl_cons, ih]
    unfold Plan.addGW
    split <;> rfl

theorem viaTun_addTun (servers : List Prefix) (plan : Plan) (p q : Prefix) :
    p ∈ (plan.addTun servers q).viaTun ↔ p ∈ plan.viaTun ∨ (p = q ∧ p ∉ servers) := by
  unfold Plan.addTun
  split
  · rename_i hq
    refine (or_iff_left_of_imp ?_).symm
    rintro ⟨rfl, hp⟩
    exact hq.resolve_right hp
  · rename_i hq
    rw [not_or] at hq
    simp only [List.mem_append, List.mem_singleton]
    refine or_congr_right ?_
    exact ⟨fun heq => ⟨heq, heq ▸ hq.2⟩, And.left⟩

theorem viaGateway_addTun (servers : List Prefix) (plan : Plan) (q : Prefix) :
    (plan.addTun servers q).viaGateway = plan.viaGateway := by
  unfold Plan.addTun
  split <;> rfl

theorem viaTun_foldl_addTun (servers l : List Prefix) (plan : Plan) (p : Prefix) :
    p ∈ (l.foldl (Plan.addTun servers) plan).viaTun ↔
      p ∈ plan.viaTun ∨ (p ∈ l ∧ p ∉ servers) := by
  induction l generalizing plan with
  | nil => simp
  | cons q l ih =>
    rw [List.foldl_cons, ih, viaTun_addTun, List.mem_cons, or_and_right, or_assoc]

theorem viaGateway_foldl_addTun (servers l : List Prefix) (plan : Plan) :
    (l.foldl (Plan.addTun servers) plan).viaGateway = plan.viaGateway := by
  induction l generalizing plan with
  | nil => rfl
  | cons q l ih => rw [List.foldl_cons, ih, viaGateway_addTun]

variable {N : NetText} {x : PlanArgs}

theorem mem_splitPrefixes {p : Prefix} :
    p ∈ splitPrefixes N x ↔
      (x.mode = .splitModeInclude ∨ x.mode = .splitModeExclude) ∧ Listed N x p := by
  have hentry : ∀ e, p ∈ entryPrefixes N x e ↔ skipped (trimSpace e) = false ∧
      keep x.ipv6 p = true ∧ (entryPrefix N (trimSpace e) = some p ∨
        entryPrefix N (trimSpace e) = none ∧
          ∃ ip ∈ x.resolved (hostKey N (trimSpace e)), ipToPrefix ip = some p) := by
    intro e
    simp only [entryPrefixes]
    cases hskip : skipped (trimSpace e) with
    | true => simp
    | false =>
      cases hentry : entryPrefix N (trimSpace e) with
      | some q =>
        simp only [Bool.false_eq_true, if_false, Option.some.injEq, reduceCtorEq, false_and, or_false,
          true_and]
        split
        · rename_i hkeep
          rw [List.mem_singleton]
          exact ⟨fun heq => ⟨heq ▸ hkeep, heq.symm⟩, fun h => h.2.symm⟩
        · rename_i hkeep
          refine iff_of_false (by simp) fun h => hkeep ?_
          rw [h.2]
          exact h.1
      | none =>
        simp only [Bool.false_eq_true, if_false, List.mem_filterMap, Option.filter_eq_some_iff,
          reduceCtorEq, false_or, true_and]
        constructor
        · rintro ⟨ip, hip, heq, hkeep⟩
          exact ⟨hkeep, ip, hip, heq⟩
        · rintro ⟨hkeep, ip, hip, heq⟩
          exact ⟨ip, hip, heq, hkeep⟩
  unfold splitPrefixes Listed
  split
  · rename_i hmode
    simp only [List.mem_flatMap, hentry, hmode, true_and]
  · rename_i hmode
    simp [hmode]

theorem mem_serverPrefixes {p : Prefix} :
    p ∈ serverPrefixes x.serverIPs ↔ ∃ a, IsServer x a ∧ p = .host a.unmap := by
  unfold serverPrefixes
  rw [List.mem_filterMap]
  constructor
  · rintro ⟨ip, hip, hp⟩
    obtain ⟨a, ha, rfl⟩ := Option.map_eq_some_iff.mp hp
    exact ⟨a, ⟨ip, hip, a, ha, rfl⟩, rfl⟩
  · rintro ⟨a, ⟨ip, hip, b, hb, heq⟩, rfl⟩
    exact ⟨ip, hip, by rw [ipToPrefix, hb, Option.map_some, heq]⟩

theorem host_mem_serverPrefixes {a : Addr} :
    Prefix.host a.unmap ∈ serverPrefixes x.serverIPs ↔ IsServer x a := by
  rw [mem_serverPrefixes]
  constructor
  · rintro ⟨b, ⟨ip, hip, c, hc, heq⟩, hhost⟩
    exact ⟨ip, hip, c, hc, heq.trans (congrArg Prefix.addr hhost).symm⟩
  · exact fun h => ⟨a, h, rfl⟩

/-- **What goes through the gateway.** -/
theorem mem_viaGateway {p : Prefix} :
    p ∈ (planRoutes N x).viaGateway ↔
      p ∈ serverPrefixes x.serverIPs ∨ (x.mode = .splitModeExclude ∧ Listed N x p) := by
  have hdns : ∀ plan : Plan, (match N.parseAddr (trimSpace x.dns) with
      | none => plan
      | some a => if keep x.ipv6 (.host a.unmap) then
          plan.addTun (serverPrefixes x.serverIPs) (.host a.unmap) else plan).viaGateway =
        plan.viaGateway := by
    intro plan
    split
    · rfl
    · split
      · exact viaGateway_addTun ..
      · rfl
  simp only [planRoutes]
  rw [hdns]
  cases hmode : x.mode <;>
    simp [viaGateway_foldl_addTun, viaGateway_foldl_addGW, mem_splitPrefixes, hmode]

/-- The route of the DNS server is added last. -/
theorem mem_viaTun_addDNS {p : Prefix} (plan : Plan) :
    p ∈ (match N.parseAddr (trimSpace x.dns) with
      | none => plan
      | some a => if keep x.ipv6 (.host a.unmap) then
          plan.addTun (serverPrefixes x.serverIPs) (.host a.unmap) else plan).viaTun ↔
      p ∈ plan.viaTun ∨
        (p ∉ serverPrefixes x.serverIPs ∧ ∃ a, IsDNS N x a ∧ p = .host a.unmap) := by
  unfold IsDNS
  cases hparse : N.parseAddr (trimSpace x.dns) with
  | none => simp
  | some b =>
    have hiff : (∃ a : Addr, (keep x.ipv6 (.host a.unmap) = true ∧
        ∃ c, some b = some c ∧ c.unmap = a.unmap) ∧ p = .host a.unmap) ↔
        keep x.ipv6 (.host b.unmap) = true ∧ p = .host b.unmap := by
      constructor
      · rintro ⟨a, ⟨hkeep, c, hc, heq⟩, rfl⟩
        obtain rfl := Option.some.inj hc
        rw [heq]
        exact ⟨hkeep, rfl⟩
      · rintro ⟨hkeep, rfl⟩
        exact ⟨b, ⟨hkeep, b, rfl, rfl⟩, rfl⟩
    rw [hiff]
    dsimp only
    split
    · rename_i hkeep
      rw [viaTun_addTun, and_comm]
      simp only [hkeep, true_and]
    · rename_i hkeep
      simp only [hkeep, Bool.false_eq_true, false_and, and_false, or_false]

/-- **What goes through the TUN.** -/
theorem mem_viaTun {p : Prefix} :
    p ∈ (planRoutes N x).viaTun ↔ p ∉ serverPrefixes x.serverIPs ∧
      ((x.mode = .splitModeInclude ∧ Listed N x p) ∨
        (x.mode ≠ .splitModeInclude ∧ p ∈ defaultRoutes) ∨
        ∃ a, IsDNS N x a ∧ p = .host a.unmap) := by
  simp only [planRoutes]
  rw [mem_viaTun_addDNS, ← or_assoc, and_or_left]
  refine or_congr_left ?_
  cases hmode : x.mode <;>
    simp [viaTun_foldl_addTun, viaTun_foldl_addGW, mem_splitPrefixes, hmode, and_comm]

/-! ## The table -/

theorem masked_normalizePrefix (p : Prefix) : (normalizePrefix p).masked = normalizePrefix p := by
  unfold normalizePrefix
  split <;> exact Prefix.masked_masked _

theorem masked_of_ipToPrefix {ip : Bytes} {p : Prefix} (h : ipToPrefix ip = some p) :
    p.masked = p := by
  obtain ⟨a, -, rfl⟩ := Option.map_eq_some_iff.mp h
  exact Prefix.masked_host _

theorem Listed.masked {p : Prefix} (h : Listed N x p) : p.masked = p := by
  obtain ⟨e, -, -, -, hentry | ⟨-, ip, -, hip⟩⟩ := h
  · simp only [entryPrefix] at hentry
    split at hentry
    · obtain rfl := Option.some.inj hentry
      exact masked_normalizePrefix _
    · obtain ⟨a, -, rfl⟩ := Option.map_eq_some_iff.mp hentry
      exact Prefix.masked_host _
  · exact masked_of_ipToPrefix hip

theorem masked_defaultRoutes : ∀ p ∈ defaultRoutes, p.masked = p ∧ p.bits = 1 := by decide

theorem mem_defaultRoutes_of_masked {p : Prefix} (hmasked : p.masked = p) (hbits : p.bits = 1) :
    p ∈ defaultRoutes := by
  have hval := congrArg (fun q : Prefix => q.addr.toNat) hmasked
  simp only [Prefix.toNat_masked, Addr.top, hbits] at hval
  obtain ⟨a, n, hn⟩ := p
  obtain rfl : n = 1 := hbits
  simp only [defaultRoutes, defaultRoutesV4, defaultRoutesV6, List.cons_append, List.nil_append,
    List.mem_cons, List.not_mem_nil, or_false, Prefix.mk.injEq, and_true]
  cases a with
  | v4 a =>
    simp only [Addr.toNat, Addr.bitLen, Addr.v4.injEq, reduceCtorEq, or_false] at hval ⊢
    have hlt := a.isLt
    have hcases : a.toNat = 0 ∨ a.toNat = 2 ^ 31 := by omega
    exact hcases.imp BitVec.eq_of_toNat_eq BitVec.eq_of_toNat_eq
  | v6 a =>
    simp only [Addr.toNat, Addr.bitLen, Addr.v6.injEq, reduceCtorEq, false_or] at hval ⊢
    have hlt := a.isLt
    have hcases : a.toNat = 0 ∨ a.toNat = 2 ^ 127 := by omega
    exact hcases.imp BitVec.eq_of_toNat_eq BitVec.eq_of_toNat_eq

/-- The default routes are the prefixes of one bit. -/
theorem mem_defaultRoutes_iff {p : Prefix} : p ∈ defaultRoutes ↔ p.masked = p ∧ p.bits = 1 :=
  ⟨masked_defaultRoutes p, fun h => mem_defaultRoutes_of_masked h.1 h.2⟩

/-- Every address is covered by a default route. -/
theorem exists_defaultRoute (a : Addr) : ∃ p ∈ defaultRoutes, p.contains a := by
  let p : Prefix := ⟨a, 1, a.bitLen_pos.le⟩
  refine ⟨p.masked, mem_defaultRoutes_iff.mpr ⟨Prefix.masked_masked p, rfl⟩, ?_, ?_⟩
  · exact Addr.is4_withNat _ _
  · exact Prefix.top_masked p

theorem masked_of_mem_viaGateway {p : Prefix} (h : p ∈ (planRoutes N x).viaGateway) :
    p.masked = p := by
  rcases mem_viaGateway.mp h with hserver | ⟨-, hlisted⟩
  · obtain ⟨a, -, rfl⟩ := mem_serverPrefixes.mp hserver
    exact Prefix.masked_host _
  · exact hlisted.masked

theorem masked_of_mem_viaTun {p : Prefix} (h : p ∈ (planRoutes N x).viaTun) : p.masked = p := by
  obtain ⟨-, ⟨-, hlisted⟩ | ⟨-, hdefault⟩ | ⟨a, -, rfl⟩⟩ := mem_viaTun.mp h
  · exact hlisted.masked
  · exact (mem_defaultRoutes_iff.mp hdefault).1
  · exact Prefix.masked_host _

variable (N x) in
theorem laminar_plan :
    Laminar Prefix.contains Prefix.bits (planRoutes N x).viaTun (planRoutes N x).viaGateway :=
  fun _ hp _ hq _ hpa hqa hbits =>
    Prefix.eq_of_contains (masked_of_mem_viaTun hp) (masked_of_mem_viaGateway hq) hpa hqa hbits

/-- The prefix of a single address decides about it. -/
theorem via_of_host {own other : List Prefix} {a : Addr} (h : Prefix.host a ∈ own) :
    Via Prefix.contains Prefix.bits own other a := by
  refine ⟨_, h, (Prefix.contains_host a a).mpr rfl, fun q _ hq => ?_⟩
  exact q.bits_le.trans (Addr.bitLen_eq hq.1).le

/-- A server route covers nothing but the server. -/
theorem not_contains_of_server {a : Addr} (ha : ¬IsServer x a) {p : Prefix}
    (hp : p ∈ serverPrefixes x.serverIPs) : ¬p.contains a.unmap := by
  intro hpa
  obtain ⟨b, ⟨ip, hip, c, hc, heq⟩, rfl⟩ := mem_serverPrefixes.mp hp
  exact ha ⟨ip, hip, c, hc, heq.trans ((Prefix.contains_host _ _).mp hpa)⟩

/-- The route of the DNS server covers nothing else. -/
theorem not_contains_of_dns {a b : Addr} (ha : ¬IsDNS N x a) (hb : IsDNS N x b) :
    ¬(Prefix.host b.unmap).contains a.unmap := by
  intro hba
  have heq := (Prefix.contains_host _ _).mp hba
  obtain ⟨hkeep, c, hc, hcb⟩ := hb
  exact ha ⟨heq ▸ hkeep, c, hc, hcb.trans heq⟩

/-- An entry is not the route of a server, if it covers another address. -/
theorem not_mem_serverPrefixes {a : Addr} (ha : ¬IsServer x a) {p : Prefix}
    (hpa : p.contains a.unmap) : p ∉ serverPrefixes x.serverIPs :=
  fun hp => not_contains_of_server ha hp hpa

theorem default_not_mem_serverPrefixes {p : Prefix} (hp : p ∈ defaultRoutes) :
    p ∉ serverPrefixes x.serverIPs := by
  intro hserver
  obtain ⟨a, -, rfl⟩ := mem_serverPrefixes.mp hserver
  have hone : a.unmap.bitLen = 1 := (mem_defaultRoutes_iff.mp hp).2
  have := a.unmap.bitLen_pos
  omega

/-- Outside include mode the default routes go through the TUN. -/
theorem default_mem_viaTun (hmode : x.mode ≠ .splitModeInclude) {p : Prefix}
    (hp : p ∈ defaultRoutes) : p ∈ (planRoutes N x).viaTun :=
  mem_viaTun.mpr ⟨default_not_mem_serverPrefixes hp, .inr (.inl ⟨hmode, hp⟩)⟩

theorem disjoint_of_safe (h : x.mode = .splitModeExclude → ExcludeSafe N x) :
    ∀ p ∈ (planRoutes N x).viaTun, p ∉ (planRoutes N x).viaGateway := by
  intro p htun hgw
  obtain ⟨hserver, hcase⟩ := mem_viaTun.mp htun
  obtain ⟨hmode, hlisted⟩ := (mem_viaGateway.mp hgw).resolve_left hserver
  rcases hcase with ⟨hinclude, -⟩ | ⟨-, hdefault⟩ | ⟨a, hdns, rfl⟩
  · exact absurd (hmode.symm.trans hinclude) (by decide)
  · exact (h hmode).noHalf p hlisted (mem_defaultRoutes_iff.mp hdefault).2
  · exact (h hmode).dns a hdns (fun ha => hserver (host_mem_serverPrefixes.mpr ha)) hlisted

/-- An address that only the TUN covers. -/
theorem via_tun_of_uncovered {a : Addr} (hmode : x.mode ≠ .splitModeInclude)
    (hgw : ∀ q ∈ (planRoutes N x).viaGateway, ¬q.contains a.unmap) :
    Via Prefix.contains Prefix.bits (planRoutes N x).viaTun (planRoutes N x).viaGateway a.unmap := by
  obtain ⟨p, hp, hpa⟩ := exists_defaultRoute a.unmap
  exact via_of_not_covered ⟨p, default_mem_viaTun hmode hp, hpa⟩ hgw

/-- In exclude mode a covered address follows its longest entry. -/
theorem via_gateway_of_covered (hmode : x.mode = .splitModeExclude) (h : ExcludeSafe N x) {a : Addr}
    (ha : Other N x a) (hcovered : Covered N x a) :
    Via Prefix.contains Prefix.bits (planRoutes N x).viaGateway (planRoutes N x).viaTun a.unmap := by
  obtain ⟨p, hp, hpa⟩ := hcovered
  -- some entry is longer than the default routes
  obtain ⟨q, hq, hlong, hqa⟩ : ∃ q, Listed N x q ∧ 1 < q.bits ∧ q.contains a.unmap := by
    rcases Nat.lt_trichotomy p.bits 1 with hzero | hone | hlong
    · exact h.longer a ha p hp (by omega) hpa
    · exact absurd hone (h.noHalf p hp)
    · exact ⟨p, hp, hlong, hpa⟩
  have hmem : q ∈ (planRoutes N x).viaGateway := mem_viaGateway.mpr (.inr ⟨hmode, hq⟩)
  obtain ⟨m, hm, hma, hmax⟩ := exists_longest Prefix.bits ⟨q, hmem, hqa⟩
  refine via_of_le hm hma hmax fun t ht hta => ?_
  have hqm := hmax q hmem hqa
  obtain ⟨-, ⟨hinclude, -⟩ | ⟨-, hdefault⟩ | ⟨b, hb, rfl⟩⟩ := mem_viaTun.mp ht
  · exact absurd (hmode.symm.trans hinclude) (by decide)
  · rw [(mem_defaultRoutes_iff.mp hdefault).2]
    omega
  · exact absurd hta (not_contains_of_dns ha.2 hb)

/-- In exclude mode nothing but entries and servers goes through the gateway. -/
theorem not_contains_of_uncovered {a : Addr} (ha : ¬IsServer x a) (hcovered : ¬Covered N x a)
    {q : Prefix} (hq : q ∈ (planRoutes N x).viaGateway) : ¬q.contains a.unmap := by
  rcases mem_viaGateway.mp hq with hserver | ⟨-, hlisted⟩
  · exact not_contains_of_server ha hserver
  · exact fun hqa => hcovered ⟨q, hlisted, hqa⟩

theorem intended_of_safe (h : x.mode = .splitModeExclude → ExcludeSafe N x) : Intended N x := by
  have hdisj := disjoint_of_safe h
  have hdisj' : ∀ p ∈ (planRoutes N x).viaGateway, p ∉ (planRoutes N x).viaTun :=
    fun p hp hp' => hdisj p hp' hp
  have htun : ∀ a, SendsTun N x a ↔ Via Prefix.contains Prefix.bits (planRoutes N x).viaTun
      (planRoutes N x).viaGateway a.unmap := fun a => (laminar_plan N x).sends_iff hdisj
  have hgw : ∀ a, SendsGateway N x a ↔ Via Prefix.contains Prefix.bits (planRoutes N x).viaGateway
      (planRoutes N x).viaTun a.unmap := fun a => (laminar_plan N x).symm.sends_iff hdisj'
  refine ⟨hdisj, fun a ha => ?_, fun a hdns ha => ?_, fun hinc hexc a ha => ?_, fun hexc a ha => ?_,
    fun hinc a ha => ?_⟩
  · exact (hgw a).mpr (via_of_host (mem_viaGateway.mpr (.inl (host_mem_serverPrefixes.mpr ha))))
  · exact (htun a).mpr (via_of_host (mem_viaTun.mpr
      ⟨fun hs => ha (host_mem_serverPrefixes.mp hs), .inr (.inr ⟨a, hdns, rfl⟩)⟩))
  · refine (htun a).mpr (via_tun_of_uncovered hinc fun q hq => ?_)
    exact not_contains_of_server ha.1 ((mem_viaGateway.mp hq).resolve_right fun h' => hexc h'.1)
  · have hinc : x.mode ≠ .splitModeInclude := by rw [hexc]; decide
    rw [htun, hgw]
    by_cases hcovered : Covered N x a
    · have hvia := via_gateway_of_covered hexc (h hexc) ha hcovered
      exact ⟨iff_of_true hvia hcovered, iff_of_false ((laminar_plan N x).symm.not_both hdisj' hvia)
        (not_not_intro hcovered)⟩
    · have hvia := via_tun_of_uncovered hinc fun q => not_contains_of_uncovered ha.1 hcovered
      exact ⟨iff_of_false ((laminar_plan N x).not_both hdisj hvia) hcovered,
        iff_of_true hvia hcovered⟩
  · rw [htun]
    constructor
    · rintro ⟨p, hp, hpa, -⟩
      obtain ⟨-, ⟨-, hlisted⟩ | ⟨hne, -⟩ | ⟨b, hb, rfl⟩⟩ := mem_viaTun.mp hp
      · exact ⟨p, hlisted, hpa⟩
      · exact absurd hinc hne
      · exact absurd hpa (not_contains_of_dns ha.2 hb)
    · rintro ⟨p, hp, hpa⟩
      refine via_of_not_covered ⟨p, mem_viaTun.mpr ⟨not_mem_serverPrefixes ha.1 hpa,
        .inl ⟨hinc, hp⟩⟩, hpa⟩ fun q hq => ?_
      refine not_contains_of_server ha.1 ((mem_viaGateway.mp hq).resolve_right fun h' => ?_)
      exact absurd (hinc.symm.trans h'.1) (by decide)

theorem safe_of_intended (h : Intended N x) (hmode : x.mode = .splitModeExclude) :
    ExcludeSafe N x := by
  have hinc : x.mode ≠ .splitModeInclude := by rw [hmode]; decide
  have hgw : ∀ p, Listed N x p → p ∈ (planRoutes N x).viaGateway := fun p hp =>
    mem_viaGateway.mpr (.inr ⟨hmode, hp⟩)
  have hhalf : ∀ p, Listed N x p → p.bits ≠ 1 := fun p hp hone =>
    h.disjoint p (default_mem_viaTun hinc (mem_defaultRoutes_iff.mpr ⟨hp.masked, hone⟩)) (hgw p hp)
  refine ⟨hhalf, fun a hdns ha hlisted => ?_, fun a ha p hp _ hpa => ?_⟩
  · refine h.disjoint _ (mem_viaTun.mpr ⟨fun hs => ha (host_mem_serverPrefixes.mp hs), ?_⟩)
      (hgw _ hlisted)
    exact .inr (.inr ⟨a, hdns, rfl⟩)
  · obtain ⟨q, hq, hqa, hmax⟩ := (((h.exclude hmode a ha).1).mpr ⟨p, hp, hpa⟩).1
    obtain ⟨d, hd, hda⟩ := exists_defaultRoute a.unmap
    have hlen := hmax d (List.mem_append_right _ (default_mem_viaTun hinc hd)) hda
    rw [(mem_defaultRoutes_iff.mp hd).2] at hlen
    rcases mem_viaGateway.mp hq with hserver | ⟨-, hlisted⟩
    · exact absurd hqa (not_contains_of_server ha.1 hserver)
    · exact ⟨q, hlisted, lt_of_le_of_ne hlen (Ne.symm (hhalf q hlisted)), hqa⟩

/-- **The table does what the settings ask for, unless exclude mode lists a prefix of one bit, the
DNS server, or a prefix of no bits for addresses that no longer entry covers.** -/
theorem intended_iff (N : NetText) (x : PlanArgs) :
    Intended N x ↔ (x.mode = .splitModeExclude → ExcludeSafe N x) :=
  ⟨safe_of_intended, intended_of_safe⟩

section Samples

/-- Parsers that know three texts. -/
def sampleText : NetText where
  parsePrefix s := if s = ascii "0.0.0.0/0" then some ⟨.v4 0, 0, by decide⟩ else none
  parseAddr s := if s = ascii "9.9.9.9" then some (.v4 0x09090909#32) else none
  toLower s := s

/-- Exclude mode with one entry and a DNS server. -/
def excluding (entry : Bytes) : PlanArgs :=
  ⟨.splitModeExclude, [entry], fun _ => [], ascii "9.9.9.9", [[1, 2, 3, 4]], false⟩

/-- With the entry `0.0.0.0/0` the address 8.8.8.8 is excluded, but the default routes are longer; and
a DNS server that is excluded is in both lists. -/
theorem exclude_misrouted :
    (Covered sampleText (excluding (ascii "0.0.0.0/0")) (.v4 0x08080808#32) ∧
      ¬SendsGateway sampleText (excluding (ascii "0.0.0.0/0")) (.v4 0x08080808#32)) ∧
    Prefix.host (.v4 0x09090909#32) ∈ (planRoutes sampleText (excluding (ascii "9.9.9.9"))).viaTun ∧
    Prefix.host (.v4 0x09090909#32) ∈
      (planRoutes sampleText (excluding (ascii "9.9.9.9"))).viaGateway := by
  refine ⟨⟨?_, ?_⟩, by decide +kernel, by decide +kernel⟩
  · refine ⟨⟨.v4 0, 0, by decide⟩, ⟨ascii "0.0.0.0/0", by simp [excluding], ?_⟩, by decide⟩
    refine ⟨by decide +kernel, rfl, .inl (by decide +kernel)⟩
  · rintro ⟨⟨p, hp, hpa, hmax⟩, -⟩
    have hzero : ∀ q ∈ (planRoutes sampleText (excluding (ascii "0.0.0.0/0"))).viaGateway,
        q.contains (.v4 0x08080808#32) → q.bits = 0 := by decide +kernel
    have hhalf := hmax ⟨.v4 0, 1, by decide⟩ (by decide +kernel) (by decide)
    rw [hzero p hp hpa] at hhalf
    exact absurd hhalf (by decide)

end Samples

end ObsidianVPN.Tun
