import ObsidianVPN.Ipv6.Reject
import ObsidianVPN.Lib.Machine
import ObsidianVPN.Server.Oversized
import ObsidianVPN.Server.Router
import ObsidianVPN.Server.Scheduler

/-!
# The data plane of the server

Each session has two relays, which take the packets of its client from the UDP session and from the
tunnel, and a `writeLoop`, which sends the queued packets to the client. One more goroutine, the
`run` of the router, reads from the TUN, looks for the session, and queues the packet or its pieces
there. All of them run side by side, and sessions come and go. A step is what is done under one lock,
in one `select` or on one atomic variable.

* `shouldDropClientPacket`, `RelayLoc`, `RouterLoc`, `Plane`, `Plane.step`: the code;
* `Plane.expected`: the pieces of the packets that were routed to a session, in the order of the TUN;
* `forward`, `answer`, `Routed.Right`: where a packet may come from; `Accounts`: no packet of a client
  is used twice;
* `readFromTUN`, `receivedFrom`: what the TUN and the clients have sent;
* `Plane.Inv`, **`Inv.step`**: what holds at every moment;
* **`forwarding_sound`**: clients get what was routed to them, once and in order, and answers to their
  own packets; the TUN gets what clients may send.
-/

namespace ObsidianVPN.Server

open ByteStr Netip Ipv6 Machine

/-! ## Packets from a client -/

/-- `String` of an IPv4 address. -/
def dotted (ip : Bytes) : List Char :=
  ['.'].intercalate (ip.map fun b => Nat.toDigits 10 b.toNat)

def looksLikeIPv4MulticastNameQuery (packet : Bytes) : Bool :=
  if packet.length < 20 ∨ packet.getD 0 0 >>> 4 ≠ 4 then false
  else
    let ihl := (packet.getD 0 0 &&& 0x0f).toNat * 4
    if ihl < 20 ∨ packet.length < ihl + 8 ∨ packet.getD 9 0 ≠ 17 then false
    else
      let dport := getBE (slice packet (ihl + 2) 2)
      if dport ≠ 137 ∧ dport ≠ 5353 ∧ dport ≠ 5355 then false
      else
        let d := dotted (slice packet 16 4)
        ['2', '2', '4', '.'].isPrefixOf d || d == dotted [239, 255, 255, 250]

def shouldDropClientPacket (packet : Bytes) : Bool :=
  if packet.length = 0 then true
  else if packet.getD 0 0 >>> 4 = 4 then looksLikeIPv4MulticastNameQuery packet
  else if packet.getD 0 0 >>> 4 = 6 then
    decide (packet.length < 40) || decide (packet.getD 24 0 = 0xff)
  else true

/-- The packet is of version 6, as `clientSink` sees it. -/
def isV6 (packet : Bytes) : Bool := decide (packet.length ≠ 0 ∧ packet.getD 0 0 >>> 4 = 6)

/-- The reply that `clientSink` makes. -/
def sinkReply (packet : Bytes) : Option Bytes :=
  reject packet (List.replicate ipv6RejectBufSize 0)

/-! ## The goroutines -/

/-- The two relays of a session. -/
inductive Path where
  | udp
  | tcp
  deriving DecidableEq

/-- Where a relay stands. -/
inductive RelayLoc where
  | recv
  /-- In `writeToTUN`, before `learnFromClientPacket`. -/
  | learn (packet : Bytes)
  | normalize (packet : Bytes)
  | write (packet : Bytes)
  /-- In `clientSink.Write`, at the first `select` of `enqueue`. -/
  | enqueue (reply : Bytes)
  /-- At the second `select` of `enqueue`. -/
  | offer (p : RoutedPacket)

/-- A packet from the TUN for which a session was found, and the calls of the router before that. -/
structure Routed where
  calls : List RouterCall
  packet : Bytes
  session : ℕ

/-- Where `run` stands. -/
inductive RouterLoc where
  | read
  | lookup (packet : Bytes)
  | single (packet : Bytes)
  /-- Before the limit of the session is read. -/
  | limit (r : Routed)
  /-- Before `enqueue` of the first of the packets. -/
  | emit (s : ℕ) (rest : List Bytes)
  /-- At the second `select` of `enqueue`. -/
  | offer (s : ℕ) (p : RoutedPacket) (rest : List Bytes)

/-- Where a queued packet comes from. -/
inductive Source where
  | tun
  | reply
  deriving DecidableEq

structure PlaneConfig where
  /-- The MTU that is configured for the TUN. -/
  configured : ℤ
  normalizeMSS : Bool
  enableIPv6 : Bool

def PlaneConfig.tunnelMTU (cfg : PlaneConfig) : ℕ := tunnelMTUFor cfg.configured

/-- The state of the server, and what has happened: the packets received from each client, those
written to the TUN, those from the TUN that were routed with the limit read for each, the events of
the lanes, and the packets put there. -/
structure Plane where
  calls : List RouterCall
  mtu : ℕ → ℕ
  lanes : ℕ → Scheduler
  router : RouterLoc
  relay : ℕ → Path → RelayLoc
  /-- The sessions whose `Close` has closed `done`. -/
  closing : List ℕ
  received : ℕ → List Bytes
  written : List (ℕ × Bytes)
  routed : List (Routed × ℕ)
  log : ℕ → List LaneEvent
  puts : ℕ → List (Source × RoutedPacket)

inductive PlaneEvent where
  | registerSession
  /-- A relay gets a packet of its client; `allow` is the answer of the limiter. -/
  | recv (s : ℕ) (path : Path) (packet : Bytes) (allow : Bool)
  /-- A relay goes on; `wrote` says whether the TUN took the packet. -/
  | relay (s : ℕ) (path : Path) (now : ℤ) (prefersDone wrote : Bool)
  | readTUN (packet : Bytes)
  | router (now : ℤ) (prefersDone : Bool)
  | loop (s : ℕ) (choice : Choice) (now : ℤ)
  | close (s : ℕ)
  | remove (s : ℕ)

/-- The first `select` of `enqueue`. A packet that is not taken waits in the caller. -/
def firstSelect (lane : Scheduler) (packet : Bytes) (now : ℤ) : Option LaneEvent × Scheduler :=
  ((lane.enqueue packet now).1, { (lane.enqueue packet now).2 with calls := [] })

/-- The second `select` of `enqueue`. -/
def secondSelect (lane : Scheduler) (p : RoutedPacket) (prefersDone : Bool) :
    Option LaneEvent × Scheduler :=
  { lane with calls := [p] }.offer 0 prefersDone

namespace Plane

/-- The table of the router. -/
def table (f : Plane) : TunRouter := TunRouter.run f.calls

section Steps

variable (cfg : PlaneConfig)

/-- The start; the entries of a session that is still to come have their first values. -/
def start : Plane :=
  ⟨[], fun _ => cfg.tunnelMTU, fun _ => newScheduler, .read, fun _ _ => .recv, [], fun _ => [], [],
    [], fun _ => [], fun _ => []⟩

/-- The lane of `s` after an operation of its own. -/
def setLane (f : Plane) (s : ℕ) (src : Source) (r : Option LaneEvent × Scheduler) : Plane :=
  { f with
    lanes := Function.update f.lanes s r.2
    log := Function.update f.log s (f.log s ++ r.1.toList)
    puts := Function.update f.puts s (f.puts s ++ (enqueued r.1.toList).map (src, ·)) }

def setRelay (f : Plane) (s : ℕ) (path : Path) (loc : RelayLoc) : Plane :=
  { f with relay := Function.update f.relay s (Function.update (f.relay s) path loc) }

/-- What a relay does with a packet of its client. -/
def sink (packet : Bytes) (allow : Bool) : RelayLoc :=
  if shouldDropClientPacket packet then .recv
  else if cfg.enableIPv6 ∨ ¬isV6 packet then .learn packet
  else
    match sinkReply packet with
    | some reply => if allow then .enqueue reply else .recv
    | none => .recv

def recv (f : Plane) (s : ℕ) (path : Path) (packet : Bytes) (allow : Bool) : Option Plane :=
  match f.relay s path with
  | .recv =>
    if s < f.table.registered then
      some { f.setRelay s path (sink cfg packet allow) with
        received := Function.update f.received s (f.received s ++ [packet]) }
    else none
  | _ => none

def relayStep (f : Plane) (s : ℕ) (path : Path) (now : ℤ) (prefersDone wrote : Bool) :
    Option Plane :=
  match f.relay s path with
  | .recv => none
  | .learn packet =>
    some { f.setRelay s path (if cfg.normalizeMSS then .normalize packet else .write packet) with
      calls := f.calls ++ [.learnFromClientPacket s packet] }
  | .normalize packet =>
    (normalizeUplinkSYN packet).map fun r =>
      { f.setRelay s path (.write r.1) with
        mtu := if r.2 > 0 then
            Function.update f.mtu s (min (max r.2 minClientMTU) cfg.tunnelMTU)
          else f.mtu }
  | .write packet =>
    some { f.setRelay s path .recv with
      written := if wrote then f.written ++ [(s, packet)] else f.written }
  | .enqueue reply =>
    let r := firstSelect (f.lanes s) reply now
    some ((f.setLane s .reply r).setRelay s path
      (if r.1.isSome then .recv else .offer ⟨reply, now⟩))
  | .offer p =>
    some ((f.setLane s .reply (secondSelect (f.lanes s) p prefersDone)).setRelay s path .recv)

def routerStep (f : Plane) (now : ℤ) (prefersDone : Bool) : Option Plane :=
  match f.router with
  | .read => none
  | .lookup packet =>
    match packetEndpoints packet with
    | none => some { f with router := .single packet }
    | some (_, dst) =>
      match f.table.byIP dst with
      | some s => some { f with router := .limit ⟨f.calls, packet, s⟩ }
      | none => some { f with router := .single packet }
  | .single packet =>
    match f.table.singleSession with
    | some s => some { f with router := .limit ⟨f.calls, packet, s⟩ }
    | none => some { f with router := .read }
  | .limit r =>
    (pieces cfg.normalizeMSS (f.mtu r.session) r.packet).map fun out =>
      { f with
        routed := f.routed ++ [(r, f.mtu r.session)]
        router := .emit r.session out }
  | .emit _ [] => some { f with router := .read }
  | .emit s (packet :: rest) =>
    let r := firstSelect (f.lanes s) packet now
    some { f.setLane s .tun r with
      router := if r.1.isSome then .emit s rest else .offer s ⟨packet, now⟩ rest }
  | .offer s p rest =>
    some { f.setLane s .tun (secondSelect (f.lanes s) p prefersDone) with router := .emit s rest }

def step (f : Plane) : PlaneEvent → Option Plane
  | .registerSession => some { f with
      calls := f.calls ++ [.registerSession]
      mtu := Function.update f.mtu f.table.registered cfg.tunnelMTU }
  | .recv s path packet allow => f.recv cfg s path packet allow
  | .relay s path now prefersDone wrote => f.relayStep cfg s path now prefersDone wrote
  | .readTUN packet =>
    match f.router with
    | .read => some { f with router := .lookup packet }
    | _ => none
  | .router now prefersDone => f.routerStep cfg now prefersDone
  | .loop s choice now =>
    if s < f.table.registered then some (f.setLane s .tun ((f.lanes s).loop choice now)) else none
  | .close s =>
    if s < f.table.registered ∧ s ∉ f.closing then
      some { f with
        lanes := Function.update f.lanes s { f.lanes s with done := true }
        closing := s :: f.closing }
    else none
  | .remove s =>
    if s ∈ f.closing ∧ s ∉ f.table.closed then some { f with calls := f.calls ++ [.close s] }
    else none

end Steps

end Plane

/-! ## Where packets come from -/

/-- The limit of a client is at most that of the tunnel, and not below what IPv6 asks for unless that
of the tunnel is. -/
def PlaneConfig.Limits (cfg : PlaneConfig) (mtu : ℕ) : Prop :=
  min minClientMTU cfg.tunnelMTU ≤ mtu ∧ mtu ≤ cfg.tunnelMTU

/-- The packet of a client may go to the TUN. -/
def PlaneConfig.Passes (cfg : PlaneConfig) (packet : Bytes) : Prop :=
  shouldDropClientPacket packet = false ∧ (cfg.enableIPv6 = true ∨ isV6 packet = false)

instance (cfg : PlaneConfig) (packet : Bytes) : Decidable (cfg.Passes packet) :=
  inferInstanceAs (Decidable (_ ∧ _))

/-- The packet as it goes to the TUN, with at most its MSS changed. -/
def PlaneConfig.normalized (cfg : PlaneConfig) (packet : Bytes) : Option Bytes :=
  if cfg.normalizeMSS then (normalizeUplinkSYN packet).map Prod.fst else some packet

/-- What is written to the TUN for a packet of a client. -/
def PlaneConfig.forward (cfg : PlaneConfig) (packet : Bytes) : Option Bytes :=
  if cfg.Passes packet then cfg.normalized packet else none

/-- The answer to a packet of a client that must not go to the TUN. -/
def PlaneConfig.answer (cfg : PlaneConfig) (packet : Bytes) : Option Bytes :=
  if shouldDropClientPacket packet = false ∧ cfg.enableIPv6 = false ∧ isV6 packet = true then
    sinkReply packet
  else none

/-- The table pointed to the session when the packet was looked up: the destination was its own, or
there was no other session. -/
def Routed.Right (r : Routed) : Prop :=
  (∃ src dst, packetEndpoints r.packet = some (src, dst) ∧
    (TunRouter.run r.calls).byIP dst = some r.session) ∨
  (TunRouter.run r.calls).singleSession = some r.session

/-! ## What has been sent -/

/-- The packets that the TUN has given. -/
def readFromTUN (evs : List PlaneEvent) : List Bytes :=
  evs.filterMap fun
    | .readTUN packet => some packet
    | _ => none

/-- The packets that the client of a session has sent. -/
def receivedFrom (s : ℕ) (evs : List PlaneEvent) : List Bytes :=
  evs.filterMap fun
    | .recv t _ packet _ => if t = s then some packet else none
    | _ => none

/-! ## What the goroutines hold -/

/-- The packet that `run` has read and not routed yet. -/
def RouterLoc.inHand : RouterLoc → List Bytes
  | .lookup packet => [packet]
  | .single packet => [packet]
  | .limit r => [r.packet]
  | _ => []

/-- What a relay has still to write to the TUN. -/
def RelayLoc.toTUN (cfg : PlaneConfig) : RelayLoc → List Bytes
  | .learn packet => (cfg.normalized packet).toList
  | .normalize packet => ((normalizeUplinkSYN packet).map Prod.fst).toList
  | .write packet => [packet]
  | _ => []

/-- What a relay has still to queue for its client. -/
def RelayLoc.toClient : RelayLoc → List Bytes
  | .enqueue reply => [reply]
  | .offer p => [p.buf]
  | _ => []

/-- What has been done, with what the two relays hold, is a part of what is due. -/
def Accounts (held : RelayLoc → List Bytes) (relay : Path → RelayLoc) (done due : List Bytes) :
    Prop :=
  ∀ x, done.count x + (held (relay .udp)).count x + (held (relay .tcp)).count x ≤ due.count x

section Accounts

variable {held : RelayLoc → List Bytes} {relay : Path → RelayLoc} {done due : List Bytes}

/-- One of the relays goes on. -/
theorem Accounts.move (h : Accounts held relay done due) (path : Path) (loc : RelayLoc)
    {done' due' : List Bytes}
    (hmove : ∀ x, done'.count x + (held loc).count x + due.count x ≤
      done.count x + (held (relay path)).count x + due'.count x) :
    Accounts held (Function.update relay path loc) done' due' := by
  intro x
  have hx := h x
  have hm := hmove x
  cases path with
  | udp =>
    rw [Function.update_self, Function.update_of_ne (by decide)]
    omega
  | tcp =>
    rw [Function.update_self, Function.update_of_ne (by decide)]
    omega

theorem Accounts.subperm (h : Accounts held relay done due) : done.Subperm due := by
  rw [List.subperm_ext_iff]
  intro x hx
  have := h x
  omega

end Accounts

theorem count_filterMap_concat (g : Bytes → Option Bytes) (packets : List Bytes) (packet x : Bytes) :
    ((packets ++ [packet]).filterMap g).count x =
      (packets.filterMap g).count x + (g packet).toList.count x := by
  rw [List.filterMap_append, List.count_append]
  cases hg : g packet <;> simp [hg]

/-- A packet of a client is forwarded, answered or dropped. -/
theorem count_sink (cfg : PlaneConfig) (packet : Bytes) (allow : Bool) (x : Bytes) :
    ((Plane.sink cfg packet allow).toTUN cfg).count x ≤ (cfg.forward packet).toList.count x ∧
      (Plane.sink cfg packet allow).toClient.count x ≤ (cfg.answer packet).toList.count x := by
  unfold Plane.sink
  split
  · exact ⟨Nat.zero_le _, Nat.zero_le _⟩
  · rename_i hkeep
    have hkeep : shouldDropClientPacket packet = false := by simpa using hkeep
    split
    · rename_i hpass
      have hpass : cfg.Passes packet := ⟨hkeep, by simpa using hpass⟩
      refine ⟨?_, Nat.zero_le _⟩
      rw [PlaneConfig.forward, if_pos hpass]
      exact le_rfl
    · rename_i hpass
      have hoff : cfg.enableIPv6 = false ∧ isV6 packet = true := by simpa using hpass
      split
      · rename_i reply hreply
        split
        · refine ⟨Nat.zero_le _, ?_⟩
          rw [PlaneConfig.answer, if_pos ⟨hkeep, hoff⟩, hreply]
          exact le_rfl
        · exact ⟨Nat.zero_le _, Nat.zero_le _⟩
      · exact ⟨Nat.zero_le _, Nat.zero_le _⟩

/-! ## Queues -/

/-- The packets from a source among those put into the lanes. -/
def putFrom (src : Source) (puts : List (Source × RoutedPacket)) : List Bytes :=
  (puts.filter fun q => decide (q.1 = src)).map fun q => q.2.buf

theorem putFrom_append (src : Source) (puts puts' : List (Source × RoutedPacket)) :
    putFrom src (puts ++ puts') = putFrom src puts ++ putFrom src puts' := by
  simp [putFrom]

/-- The packets from the TUN have been put into the lanes in the order in which they are to come, with
some left out; those that remain come after them. -/
def InOrder (puts : List (Source × RoutedPacket)) (expected remaining : List Bytes) : Prop :=
  ∃ gone, gone ++ remaining = expected ∧ (putFrom .tun puts).Sublist gone

namespace InOrder

variable {puts : List (Source × RoutedPacket)} {expected remaining : List Bytes}

theorem reply (h : InOrder puts expected remaining) (ps : List RoutedPacket) :
    InOrder (puts ++ ps.map (Source.reply, ·)) expected remaining := by
  obtain ⟨gone, heq, hsub⟩ := h
  exact ⟨gone, heq, by simpa [putFrom, List.filter_map, Function.comp_def] using hsub⟩

theorem put {p : RoutedPacket} (h : InOrder puts expected (p.buf :: remaining)) :
    InOrder (puts ++ [(.tun, p)]) expected remaining := by
  obtain ⟨gone, rfl, hsub⟩ := h
  refine ⟨gone ++ [p.buf], by simp, ?_⟩
  simpa [putFrom] using hsub.append (List.Sublist.refl [p.buf])

theorem skip {packet : Bytes} (h : InOrder puts expected (packet :: remaining)) :
    InOrder puts expected remaining := by
  obtain ⟨gone, rfl, hsub⟩ := h
  exact ⟨gone ++ [packet], by simp, hsub.trans (List.sublist_append_left _ _)⟩

theorem add (h : InOrder puts expected []) (more : List Bytes) :
    InOrder puts (expected ++ more) more := by
  obtain ⟨gone, rfl, hsub⟩ := h
  exact ⟨gone, by simp, hsub⟩

end InOrder

/-- The first `select` takes the packet or does nothing. -/
theorem firstSelect_cases (lane : Scheduler) (packet : Bytes) (now : ℤ) :
    (firstSelect lane packet now).1 = some (.putPrio ⟨packet, now⟩) ∨
      (firstSelect lane packet now).1 = none := by
  unfold firstSelect Scheduler.enqueue
  dsimp only
  split <;> simp

/-- The second `select` takes the packet or refuses it. -/
theorem secondSelect_cases (lane : Scheduler) (p : RoutedPacket) (prefersDone : Bool) :
    (secondSelect lane p prefersDone).1 = some (.putOut p) ∨
      (secondSelect lane p prefersDone).1 = some (.refused p) := by
  simp only [secondSelect, Scheduler.offer, List.getElem?_cons_zero]
  split <;> simp

theorem firstSelect_inv {lane : Scheduler} {log : List LaneEvent} (h : lane.Inv log) (packet : Bytes)
    (now : ℤ) : (firstSelect lane packet now).2.Inv (log ++ (firstSelect lane packet now).1.toList) := by
  obtain ⟨h₁, h₂, h₃, h₄, h₅⟩ := h.enqueue packet now
  exact ⟨h₁, h₂, h₃, h₄, h₅⟩

theorem secondSelect_inv {lane : Scheduler} {log : List LaneEvent} (h : lane.Inv log)
    (p : RoutedPacket) (prefersDone : Bool) : (secondSelect lane p prefersDone).2.Inv
      (log ++ (secondSelect lane p prefersDone).1.toList) :=
  Scheduler.Inv.offer (s := { lane with calls := [p] }) ⟨h.prio, h.out, h.counted, h.ready, h.turns⟩
    0 prefersDone

/-- Each lane is a part of what is put into both. -/
theorem put_sublist (log : List LaneEvent) :
    (putPrio log).Sublist (enqueued log) ∧ (putOut log).Sublist (enqueued log) := by
  induction log with
  | nil => exact ⟨List.Sublist.refl _, List.Sublist.refl _⟩
  | cons e log ih =>
    unfold putPrio putOut enqueued at ih ⊢
    cases e with
    | putPrio p => exact ⟨by simpa using ih.1, by simpa using ih.2.cons p⟩
    | putOut p => exact ⟨by simpa using ih.1.cons p, by simpa using ih.2⟩
    | refused | handPrio | handOut | sawEmpty => simpa using ih

/-- The loop puts nothing into the lanes. -/
theorem enqueued_loop (lane : Scheduler) (choice : Choice) (now : ℤ) :
    enqueued (lane.loop choice now).1.toList = [] := by
  have hturn := turn_loop lane choice now
  generalize (lane.loop choice now).1 = e at hturn
  generalize (lane.loop choice now).2 = lane' at hturn
  cases hturn <;> simp [enqueued]

namespace Plane

/-! ## The steps -/

/-- What a step can do. -/
inductive Stepped (cfg : PlaneConfig) (f : Plane) : PlaneEvent → Plane → Prop where
  | register : Stepped cfg f .registerSession { f with
      calls := f.calls ++ [.registerSession]
      mtu := Function.update f.mtu f.table.registered cfg.tunnelMTU }
  | recv (s : ℕ) (path : Path) (packet : Bytes) (allow : Bool) :
      Stepped cfg f (.recv s path packet allow) { f.setRelay s path (sink cfg packet allow) with
        received := Function.update f.received s (f.received s ++ [packet]) }
  | learn (s : ℕ) (path : Path) (packet : Bytes) {now : ℤ} {prefersDone wrote : Bool}
      (hloc : f.relay s path = .learn packet) :
      Stepped cfg f (.relay s path now prefersDone wrote) { f.setRelay s path
          (if cfg.normalizeMSS then .normalize packet else .write packet) with
        calls := f.calls ++ [.learnFromClientPacket s packet] }
  | normalize (s : ℕ) (path : Path) (packet : Bytes) (r : Bytes × ℕ) {now : ℤ}
      {prefersDone wrote : Bool} (hloc : f.relay s path = .normalize packet)
      (hnorm : normalizeUplinkSYN packet = some r) :
      Stepped cfg f (.relay s path now prefersDone wrote) { f.setRelay s path (.write r.1) with
        mtu := if r.2 > 0 then
            Function.update f.mtu s (min (max r.2 minClientMTU) cfg.tunnelMTU)
          else f.mtu }
  | write (s : ℕ) (path : Path) (packet : Bytes) {now : ℤ} {prefersDone : Bool} (wrote : Bool)
      (hloc : f.relay s path = .write packet) :
      Stepped cfg f (.relay s path now prefersDone wrote) { f.setRelay s path .recv with
        written := if wrote then f.written ++ [(s, packet)] else f.written }
  | tryReply (s : ℕ) (path : Path) (reply : Bytes) (now : ℤ) {prefersDone wrote : Bool}
      (hloc : f.relay s path = .enqueue reply) :
      Stepped cfg f (.relay s path now prefersDone wrote)
        ((f.setLane s .reply (firstSelect (f.lanes s) reply now)).setRelay s path
          (if (firstSelect (f.lanes s) reply now).1.isSome then .recv else .offer ⟨reply, now⟩))
  | offerReply (s : ℕ) (path : Path) (p : RoutedPacket) {now : ℤ} (prefersDone : Bool) {wrote : Bool}
      (hloc : f.relay s path = .offer p) :
      Stepped cfg f (.relay s path now prefersDone wrote)
        ((f.setLane s .reply (secondSelect (f.lanes s) p prefersDone)).setRelay s path .recv)
  | read (packet : Bytes) (hloc : f.router = .read) :
      Stepped cfg f (.readTUN packet) { f with router := .lookup packet }
  | goOn (loc : RouterLoc) {now : ℤ} {prefersDone : Bool}
      (hloc : ∀ s rest, f.router = .emit s rest → rest = [])
      (hfrom : ∀ s p rest, f.router ≠ .offer s p rest)
      (hto : ∀ s rest, loc ≠ .emit s rest) (hto' : ∀ s p rest, loc ≠ .offer s p rest)
      (hright : ∀ r, loc = .limit r → r.calls = f.calls ∧ r.Right)
      (hhand : loc.inHand.Sublist f.router.inHand) :
      Stepped cfg f (.router now prefersDone) { f with router := loc }
  | limit (r : Routed) (out : List Bytes) {now : ℤ} {prefersDone : Bool}
      (hloc : f.router = .limit r)
      (hout : pieces cfg.normalizeMSS (f.mtu r.session) r.packet = some out) :
      Stepped cfg f (.router now prefersDone) { f with
        routed := f.routed ++ [(r, f.mtu r.session)]
        router := .emit r.session out }
  | tryPiece (s : ℕ) (packet : Bytes) (rest : List Bytes) (now : ℤ) {prefersDone : Bool}
      (hloc : f.router = .emit s (packet :: rest)) :
      Stepped cfg f (.router now prefersDone)
        { f.setLane s .tun (firstSelect (f.lanes s) packet now) with
          router := if (firstSelect (f.lanes s) packet now).1.isSome then .emit s rest
            else .offer s ⟨packet, now⟩ rest }
  | offerPiece (s : ℕ) (p : RoutedPacket) (rest : List Bytes) {now : ℤ} (prefersDone : Bool)
      (hloc : f.router = .offer s p rest) :
      Stepped cfg f (.router now prefersDone)
        { f.setLane s .tun (secondSelect (f.lanes s) p prefersDone) with router := .emit s rest }
  | loop (s : ℕ) (choice : Choice) (now : ℤ) :
      Stepped cfg f (.loop s choice now) (f.setLane s .tun ((f.lanes s).loop choice now))
  | close (s : ℕ) : Stepped cfg f (.close s) { f with
      lanes := Function.update f.lanes s { f.lanes s with done := true }
      closing := s :: f.closing }
  | remove (s : ℕ) : Stepped cfg f (.remove s) { f with calls := f.calls ++ [.close s] }

theorem stepped_of_routerStep {cfg : PlaneConfig} {f f' : Plane} {now : ℤ} {prefersDone : Bool}
    (h : f.routerStep cfg now prefersDone = some f') :
    Stepped cfg f (.router now prefersDone) f' := by
  unfold routerStep at h
  split at h
  · cases h
  · rename_i packet hloc
    -- `lookup`
    have hgo : Stepped cfg f (.router now prefersDone) { f with router := .single packet } :=
      .goOn _ (by simp [hloc]) (by simp [hloc]) nofun nofun nofun (by simp [hloc, RouterLoc.inHand])
    split at h
    · obtain rfl := Option.some.inj h
      exact hgo
    · rename_i src dst hends
      split at h
      · rename_i s hby
        obtain rfl := Option.some.inj h
        refine .goOn _ (by simp [hloc]) (by simp [hloc]) nofun nofun (fun r hr => ?_)
          (by simp [hloc, RouterLoc.inHand])
        obtain rfl := RouterLoc.limit.inj hr
        exact ⟨rfl, .inl ⟨src, dst, hends, hby⟩⟩
      · obtain rfl := Option.some.inj h
        exact hgo
  · rename_i packet hloc
    split at h
    · rename_i s hsingle
      obtain rfl := Option.some.inj h
      refine .goOn _ (by simp [hloc]) (by simp [hloc]) nofun nofun (fun r hr => ?_)
        (by simp [hloc, RouterLoc.inHand])
      obtain rfl := RouterLoc.limit.inj hr
      exact ⟨rfl, .inr hsingle⟩
    · obtain rfl := Option.some.inj h
      exact .goOn _ (by simp [hloc]) (by simp [hloc]) nofun nofun nofun (List.nil_sublist _)
  · rename_i r hloc
    obtain ⟨out, hout, rfl⟩ := Option.map_eq_some_iff.mp h
    exact .limit r out hloc hout
  · rename_i s hloc
    obtain rfl := Option.some.inj h
    exact .goOn _ (by simp [hloc]) (by simp [hloc]) nofun nofun nofun (List.nil_sublist _)
  · rename_i s packet rest hloc
    obtain rfl := Option.some.inj h
    exact .tryPiece s packet rest now hloc
  · rename_i s p rest hloc
    obtain rfl := Option.some.inj h
    exact .offerPiece s p rest prefersDone hloc

theorem stepped_of_step {cfg : PlaneConfig} {f f' : Plane} {ev : PlaneEvent}
    (h : f.step cfg ev = some f') : Stepped cfg f ev f' := by
  cases ev with
  | registerSession =>
    obtain rfl := Option.some.inj h
    exact .register
  | recv s path packet allow =>
    simp only [step, Plane.recv] at h
    split at h
    · obtain ⟨-, h⟩ := Option.ite_none_right_eq_some.mp h
      obtain rfl := Option.some.inj h
      exact .recv s path packet allow
    · cases h
  | relay s path now prefersDone wrote =>
    simp only [step, relayStep] at h
    split at h
    · cases h
    · rename_i packet hloc
      obtain rfl := Option.some.inj h
      exact .learn s path packet hloc
    · rename_i packet hloc
      obtain ⟨r, hnorm, rfl⟩ := Option.map_eq_some_iff.mp h
      exact .normalize s path packet r hloc hnorm
    · rename_i packet hloc
      obtain rfl := Option.some.inj h
      exact .write s path packet wrote hloc
    · rename_i reply hloc
      obtain rfl := Option.some.inj h
      exact .tryReply s path reply now hloc
    · rename_i p hloc
      obtain rfl := Option.some.inj h
      exact .offerReply s path p prefersDone hloc
  | readTUN packet =>
    simp only [step] at h
    split at h
    · rename_i hloc
      obtain rfl := Option.some.inj h
      exact .read packet hloc
    · cases h
  | router now prefersDone => exact stepped_of_routerStep h
  | loop s choice now =>
    obtain ⟨-, h⟩ := Option.ite_none_right_eq_some.mp h
    obtain rfl := Option.some.inj h
    exact .loop s choice now
  | close s =>
    obtain ⟨-, h⟩ := Option.ite_none_right_eq_some.mp h
    obtain rfl := Option.some.inj h
    exact .close s
  | remove s =>
    obtain ⟨-, h⟩ := Option.ite_none_right_eq_some.mp h
    obtain rfl := Option.some.inj h
    exact .remove s

/-! ## The invariant -/

/-- The packets that were routed to `s`, as they are queued, in the order of the TUN. -/
def expected (cfg : PlaneConfig) (f : Plane) (s : ℕ) : List Bytes :=
  (f.routed.filter fun r => decide (r.1.session = s)).flatMap fun r =>
    (pieces cfg.normalizeMSS r.2 r.1.packet).getD []

/-- The packets for `s` that `run` has still to queue. -/
def remaining (f : Plane) (s : ℕ) : List Bytes :=
  match f.router with
  | .emit t rest => if t = s then rest else []
  | .offer t p rest => if t = s then p.buf :: rest else []
  | _ => []

/-- The packets that have been routed, and the one that may still be. -/
def tunPackets (f : Plane) : List Bytes := (f.routed.map fun r => r.1.packet) ++ f.router.inHand

/-- The lanes of a session fit what has been put there. -/
structure LanesInv (f : Plane) (s : ℕ) : Prop where
  inv : (f.lanes s).Inv (f.log s)
  enqueued : enqueued (f.log s) = (f.puts s).map Prod.snd

/-- The packets of a session that have been written to the TUN. -/
def writtenBy (f : Plane) (s : ℕ) : List Bytes :=
  (f.written.filter fun w => decide (w.1 = s)).map Prod.snd

/-- What the relays of a session have done comes from its client. -/
structure RelayInv (cfg : PlaneConfig) (f : Plane) (s : ℕ) : Prop where
  written : Accounts (RelayLoc.toTUN cfg) (f.relay s) (f.writtenBy s)
    ((f.received s).filterMap cfg.forward)
  replies : Accounts RelayLoc.toClient (f.relay s) (putFrom .reply (f.puts s))
    ((f.received s).filterMap cfg.answer)

/-- The client of `s` has sent the packet, and it may go to the TUN. -/
def Sent (cfg : PlaneConfig) (f : Plane) (s : ℕ) (packet : Bytes) : Prop :=
  packet ∈ f.received s ∧ cfg.Passes packet

/-- The router learns from packets that the client has sent. -/
structure LearnInv (cfg : PlaneConfig) (f : Plane) (s : ℕ) : Prop where
  held : ∀ path packet, f.relay s path = .learn packet → f.Sent cfg s packet
  calls : ∀ packet, .learnFromClientPacket s packet ∈ f.calls → f.Sent cfg s packet

structure Inv (cfg : PlaneConfig) (f : Plane) : Prop where
  lanes : ∀ s, f.LanesInv s
  learned : ∀ s, f.LearnInv cfg s
  order : ∀ s, InOrder (f.puts s) (f.expected cfg s) (f.remaining s)
  relays : ∀ s, f.RelayInv cfg s
  mtu : ∀ s, cfg.Limits (f.mtu s)
  routed : ∀ r ∈ f.routed, (r.1.calls <+: f.calls ∧ r.1.Right) ∧ cfg.Limits r.2
  pending : ∀ r, f.router = .limit r → r.calls <+: f.calls ∧ r.Right

section Preservation

variable {cfg : PlaneConfig} {f f' : Plane} {ev : PlaneEvent}

theorem puts_setLane (f : Plane) (s : ℕ) (src : Source) (r : Option LaneEvent × Scheduler) (t : ℕ) :
    (f.setLane s src r).puts t =
      if t = s then f.puts s ++ (Server.enqueued r.1.toList).map (src, ·) else f.puts t :=
  Function.update_apply f.puts s _ t

theorem lanesInv_setLane (h : ∀ t, f.LanesInv t) {s : ℕ} (src : Source)
    {r : Option LaneEvent × Scheduler} (hr : r.2.Inv (f.log s ++ r.1.toList)) (t : ℕ) :
    (f.setLane s src r).LanesInv t := by
  by_cases hts : t = s
  · subst hts
    have hlog : Server.enqueued (f.log t ++ r.1.toList) =
        Server.enqueued (f.log t) ++ Server.enqueued r.1.toList := List.filterMap_append
    refine ⟨by simpa [setLane] using hr, ?_⟩
    rw [puts_setLane, if_pos rfl]
    simp [setLane, hlog, (h t).enqueued, Function.comp_def]
  · exact ⟨by simpa [setLane, hts] using (h t).inv, by simpa [setLane, hts] using (h t).enqueued⟩

theorem lanes_stepped (h : ∀ t, f.LanesInv t) (hstep : Stepped cfg f ev f') (t : ℕ) :
    f'.LanesInv t := by
  cases hstep with
  | tryReply s path reply now hloc =>
    have := lanesInv_setLane h .reply (firstSelect_inv (h s).inv reply now) t
    exact ⟨this.inv, this.enqueued⟩
  | offerReply s path p prefersDone hloc =>
    have := lanesInv_setLane h .reply (secondSelect_inv (h s).inv p prefersDone) t
    exact ⟨this.inv, this.enqueued⟩
  | tryPiece s packet rest now hloc =>
    have := lanesInv_setLane h .tun (firstSelect_inv (h s).inv packet now) t
    exact ⟨this.inv, this.enqueued⟩
  | offerPiece s p rest prefersDone hloc =>
    have := lanesInv_setLane h .tun (secondSelect_inv (h s).inv p prefersDone) t
    exact ⟨this.inv, this.enqueued⟩
  | loop s choice now =>
    exact lanesInv_setLane h .tun ((h s).inv.turn (turn_loop (f.lanes s) choice now)) t
  | close s =>
    by_cases hts : t = s
    · subst hts
      obtain ⟨h₁, h₂, h₃, h₄, h₅⟩ := (h t).inv
      exact ⟨by simpa using ⟨h₁, h₂, h₃, h₄, h₅⟩, (h t).enqueued⟩
    · exact ⟨by simpa [hts] using (h t).inv, (h t).enqueued⟩
  | register | recv | learn | normalize | write | read | goOn | limit | remove =>
    exact ⟨(h t).inv, (h t).enqueued⟩

/-- Replies and the loop do not change the order. -/
theorem inOrder_setLane_reply {t : ℕ} {es rs : List Bytes} (h : InOrder (f.puts t) es rs) (s : ℕ)
    (r : Option LaneEvent × Scheduler) : InOrder ((f.setLane s .reply r).puts t) es rs := by
  rw [puts_setLane]
  split
  · rename_i hts
    subst hts
    exact h.reply _
  · exact h

/-- A piece that is put into a lane, or refused there. -/
theorem inOrder_setLane_tun {s t : ℕ} {p : RoutedPacket} {es rest : List Bytes}
    {r : Option LaneEvent × Scheduler}
    (hr : r.1 = some (.putPrio p) ∨ r.1 = some (.putOut p) ∨ r.1 = some (.refused p))
    (h : InOrder (f.puts t) es (if s = t then p.buf :: rest else [])) :
    InOrder ((f.setLane s .tun r).puts t) es (if s = t then rest else []) := by
  rw [puts_setLane]
  by_cases hts : s = t
  · subst hts
    simp only [if_true] at h ⊢
    rcases hr with hr | hr | hr
    · simpa [hr, Server.enqueued] using h.put
    · simpa [hr, Server.enqueued] using h.put
    · simpa [hr, Server.enqueued] using h.skip
  · simpa [hts, Ne.symm hts] using h

theorem setLane_none (f : Plane) (s : ℕ) (src : Source) {r : Option LaneEvent × Scheduler}
    (hr : Server.enqueued r.1.toList = []) (t : ℕ) : (f.setLane s src r).puts t = f.puts t := by
  rw [puts_setLane, hr]
  split
  · rename_i hts
    simp [hts]
  · rfl

theorem order_stepped (h : ∀ t, InOrder (f.puts t) (f.expected cfg t) (f.remaining t))
    (hstep : Stepped cfg f ev f') (t : ℕ) :
    InOrder (f'.puts t) (f'.expected cfg t) (f'.remaining t) := by
  have ht := h t
  cases hstep with
  | tryReply s path reply now hloc => exact inOrder_setLane_reply ht s _
  | offerReply s path p prefersDone hloc => exact inOrder_setLane_reply ht s _
  | read packet hloc =>
    simp only [remaining, hloc] at ht
    exact ht
  | goOn loc hloc hfrom hto hto' hright hhand =>
    -- nothing was left to queue, and nothing is yet
    have hbefore : f.remaining t = [] := by
      unfold remaining
      split
      · rename_i s rest hr
        rw [hloc s rest hr]
        split <;> rfl
      · rename_i s p rest hr
        exact absurd hr (hfrom s p rest)
      · rfl
    have hafter : remaining { f with router := loc } t = [] := by
      unfold remaining
      split
      · rename_i s rest hr
        exact absurd hr (hto s rest)
      · rename_i s p rest hr
        exact absurd hr (hto' s p rest)
      · rfl
    rw [hbefore] at ht
    rw [hafter]
    exact ht
  | limit r out hloc hout =>
    have hbefore : f.remaining t = [] := by rw [remaining, hloc]
    rw [hbefore] at ht
    by_cases hrt : r.session = t
    · rw [hrt] at hout
      simpa [expected, remaining, hrt, hout] using ht.add out
    · simpa [expected, remaining, hrt] using ht
  | tryPiece s packet rest now hloc =>
    simp only [remaining, hloc] at ht
    obtain hput | hnone := firstSelect_cases (f.lanes s) packet now
    · simp only [remaining, hput, Option.isSome_some, if_true]
      exact inOrder_setLane_tun (p := ⟨packet, now⟩) (.inl hput) ht
    · have hsame := setLane_none f s .tun (r := firstSelect (f.lanes s) packet now)
        (by rw [hnone]; rfl) t
      simp only [remaining, hnone, Option.isSome_none, Bool.false_eq_true, if_false]
      rw [hsame]
      exact ht
  | offerPiece s p rest prefersDone hloc =>
    simp only [remaining, hloc] at ht
    exact inOrder_setLane_tun (.inr (secondSelect_cases (f.lanes s) p prefersDone)) ht
  | loop s choice now =>
    have hsame := setLane_none f s .tun (enqueued_loop (f.lanes s) choice now) t
    rw [hsame]
    exact ht
  | register | recv | learn | normalize | write | close | remove => exact ht

/-- A relay of the session `s` goes on. -/
theorem relayInv_move (h : ∀ t, f.RelayInv cfg t) {g : Plane} {t : ℕ} (s : ℕ) (path : Path)
    (loc : RelayLoc)
    (hrelay : g.relay = (f.setRelay s path loc).relay)
    (hothers : ∀ t, t ≠ s → g.writtenBy t = f.writtenBy t ∧ g.received t = f.received t ∧
      putFrom .reply (g.puts t) = putFrom .reply (f.puts t))
    (hwritten : ∀ x, (g.writtenBy s).count x + (loc.toTUN cfg).count x +
        ((f.received s).filterMap cfg.forward).count x ≤
      (f.writtenBy s).count x + ((f.relay s path).toTUN cfg).count x +
        ((g.received s).filterMap cfg.forward).count x)
    (hreplies : ∀ x, (putFrom .reply (g.puts s)).count x + loc.toClient.count x +
        ((f.received s).filterMap cfg.answer).count x ≤
      (putFrom .reply (f.puts s)).count x + (f.relay s path).toClient.count x +
        ((g.received s).filterMap cfg.answer).count x) : g.RelayInv cfg t := by
  by_cases hts : t = s
  · subst hts
    have hhere : g.relay t = Function.update (f.relay t) path loc := by
      rw [hrelay]
      exact Function.update_self ..
    constructor
    · rw [hhere]
      exact (h t).written.move path loc hwritten
    · rw [hhere]
      exact (h t).replies.move path loc hreplies
  · have hhere : g.relay t = f.relay t := by
      rw [hrelay]
      exact Function.update_of_ne hts ..
    obtain ⟨hw, hreceived, hputs⟩ := hothers t hts
    constructor
    · rw [hhere, hw, hreceived]
      exact (h t).written
    · rw [hhere, hputs, hreceived]
      exact (h t).replies

/-- What is queued from the TUN is not a reply. -/
theorem replies_setLane_tun (f : Plane) (s : ℕ) (r : Option LaneEvent × Scheduler) (t : ℕ) :
    putFrom .reply ((f.setLane s .tun r).puts t) = putFrom .reply (f.puts t) := by
  rw [puts_setLane]
  split
  · rename_i hts
    subst hts
    rw [putFrom_append]
    simp [putFrom, List.filter_map, Function.comp_def]
  · rfl

theorem relayInv_setLane_tun (h : ∀ t, f.RelayInv cfg t) (s : ℕ) (r : Option LaneEvent × Scheduler)
    (t : ℕ) : (f.setLane s .tun r).RelayInv cfg t := by
  refine ⟨(h t).written, ?_⟩
  rw [replies_setLane_tun]
  exact (h t).replies

/-- A reply is put into a lane of its session, refused there, or still held. -/
theorem relayInv_reply (h : ∀ t, f.RelayInv cfg t) {s : ℕ} {path : Path} {loc : RelayLoc}
    {r : Option LaneEvent × Scheduler} (htun : ∀ x, (loc.toTUN cfg).count x = 0)
    (hmove : ∀ x, ((Server.enqueued r.1.toList).map RoutedPacket.buf).count x + loc.toClient.count x ≤
      (f.relay s path).toClient.count x) (t : ℕ) :
    ((f.setLane s .reply r).setRelay s path loc).RelayInv cfg t := by
  have hputs : ∀ t, putFrom .reply ((f.setLane s .reply r).puts t) = putFrom .reply (f.puts t) ++
      if t = s then (Server.enqueued r.1.toList).map RoutedPacket.buf else [] := by
    intro t
    rw [puts_setLane]
    split
    · rename_i hts
      subst hts
      rw [putFrom_append]
      simp [putFrom, List.filter_map, Function.comp_def]
    · simp
  refine relayInv_move h s path loc rfl (fun t hts => ⟨rfl, rfl, ?_⟩) (fun x => ?_) (fun x => ?_)
  · exact (hputs t).trans (by simp [hts])
  · have := htun x
    change (f.writtenBy s).count x + _ + _ ≤ _ + _ + ((f.received s).filterMap cfg.forward).count x
    omega
  · have := hmove x
    change (putFrom .reply ((f.setLane s .reply r).puts s)).count x + _ + _ ≤ _
    rw [hputs, if_pos rfl, List.count_append]
    change _ ≤ _ + _ + ((f.received s).filterMap cfg.answer).count x
    omega

theorem writtenBy_write (s : ℕ) (path : Path) (packet : Bytes) (wrote : Bool) (t : ℕ) :
    writtenBy { f.setRelay s path .recv with
      written := if wrote then f.written ++ [(s, packet)] else f.written } t =
      f.writtenBy t ++ if wrote = true ∧ s = t then [packet] else [] := by
  unfold writtenBy
  cases wrote
  · simp
  · by_cases hst : s = t <;> simp [hst]

theorem relays_stepped (h : ∀ t, f.RelayInv cfg t) (hstep : Stepped cfg f ev f') (t : ℕ) :
    f'.RelayInv cfg t := by
  cases hstep with
  | recv s path packet allow =>
    have hreceived : Function.update f.received s (f.received s ++ [packet]) s =
        f.received s ++ [packet] := Function.update_self ..
    refine relayInv_move h s path (sink cfg packet allow) rfl (fun t hts => ?_) (fun x => ?_)
      (fun x => ?_)
    · exact ⟨rfl, Function.update_of_ne hts .., rfl⟩
    · have := (count_sink cfg packet allow x).1
      simp only [hreceived, count_filterMap_concat]
      change (f.writtenBy s).count x + _ + _ ≤ _
      omega
    · have := (count_sink cfg packet allow x).2
      simp only [hreceived, count_filterMap_concat]
      change (putFrom .reply (f.puts s)).count x + _ + _ ≤ _
      omega
  | learn s path packet hloc =>
    refine relayInv_move h s path _ rfl (fun t hts => ⟨rfl, rfl, rfl⟩) (fun x => ?_) (fun x => ?_)
    · have hsame : (if cfg.normalizeMSS then RelayLoc.normalize packet
          else .write packet).toTUN cfg = (f.relay s path).toTUN cfg := by
        rw [hloc, RelayLoc.toTUN, PlaneConfig.normalized]
        split <;> rfl
      rw [hsame]
      exact le_rfl
    · have hnone : (if cfg.normalizeMSS then RelayLoc.normalize packet
          else .write packet).toClient = [] := by
        split <;> rfl
      rw [hnone]
      exact Nat.add_le_add_right (Nat.add_le_add_left (Nat.zero_le _) _) _
  | normalize s path packet r hloc hnorm =>
    refine relayInv_move h s path (.write r.1) rfl (fun t hts => ⟨rfl, rfl, rfl⟩) (fun x => ?_)
      (fun x => ?_)
    · rw [hloc, RelayLoc.toTUN, RelayLoc.toTUN, hnorm]
      exact le_rfl
    · exact Nat.add_le_add_right (Nat.add_le_add_left (Nat.zero_le _) _) _
  | write s path packet wrote hloc =>
    refine relayInv_move h s path .recv rfl (fun t hts => ⟨?_, rfl, rfl⟩) (fun x => ?_)
      (fun x => ?_)
    · rw [writtenBy_write, if_neg (by simp [Ne.symm hts]), List.append_nil]
    · rw [writtenBy_write, hloc, List.count_append]
      change _ + _ + 0 + _ ≤ _ + [packet].count x + _
      have hle : (if wrote = true ∧ s = s then [packet] else []).count x ≤ [packet].count x := by
        split
        · exact le_rfl
        · exact Nat.zero_le _
      exact Nat.add_le_add_right (Nat.add_le_add_left hle _) _
    · exact Nat.add_le_add_right (Nat.add_le_add_left (Nat.zero_le _) _) _
  | tryReply s path reply now hloc =>
    refine relayInv_reply h (fun x => ?_) (fun x => ?_) t
    · split <;> rfl
    · rw [hloc]
      obtain hput | hnone := firstSelect_cases (f.lanes s) reply now
      · simp [hput, Server.enqueued, RelayLoc.toClient]
      · simp [hnone, Server.enqueued, RelayLoc.toClient]
  | offerReply s path p prefersDone hloc =>
    refine relayInv_reply h (fun x => rfl) (fun x => ?_) t
    rw [hloc]
    obtain hput | hrefused := secondSelect_cases (f.lanes s) p prefersDone
    · simp [hput, Server.enqueued, RelayLoc.toClient]
    · simp [hrefused, Server.enqueued, RelayLoc.toClient]
  | tryPiece s packet rest now hloc =>
    obtain ⟨hwritten, hreplies⟩ :=
      relayInv_setLane_tun h s (firstSelect (f.lanes s) packet now) t
    exact ⟨hwritten, hreplies⟩
  | offerPiece s p rest prefersDone hloc =>
    obtain ⟨hwritten, hreplies⟩ :=
      relayInv_setLane_tun h s (secondSelect (f.lanes s) p prefersDone) t
    exact ⟨hwritten, hreplies⟩
  | loop s choice now => exact relayInv_setLane_tun h s _ t
  | register | read | goOn | limit | close | remove => exact ⟨(h t).written, (h t).replies⟩

/-- A relay that does not come to `learn`. -/
theorem learnInv_move (h : ∀ t, f.LearnInv cfg t) {g : Plane} {t : ℕ} (s : ℕ) (path : Path)
    (loc : RelayLoc) (hrelay : g.relay = (f.setRelay s path loc).relay)
    (hreceived : g.received = f.received) (hloc : ∀ packet, loc ≠ .learn packet)
    (hcalls : ∀ packet, .learnFromClientPacket t packet ∈ g.calls →
      .learnFromClientPacket t packet ∈ f.calls ∨ f.Sent cfg t packet) : g.LearnInv cfg t := by
  have hsent : ∀ packet, f.Sent cfg t packet → g.Sent cfg t packet := by
    intro packet hp
    rw [Sent, hreceived]
    exact hp
  refine ⟨fun path' packet hl => hsent packet ?_, fun packet hmem => hsent packet ?_⟩
  · rw [hrelay] at hl
    by_cases hts : t = s
    · subst hts
      simp only [setRelay, Function.update_self, Function.update_apply] at hl
      split at hl
      · exact absurd hl (hloc packet)
      · exact (h t).held path' packet hl
    · simp only [setRelay, Function.update_of_ne hts] at hl
      exact (h t).held path' packet hl
  · exact (hcalls packet hmem).elim ((h t).calls packet) id

theorem sink_eq_learn {packet packet' : Bytes} {allow : Bool}
    (h : sink cfg packet allow = .learn packet') : packet' = packet ∧ cfg.Passes packet := by
  unfold sink at h
  split at h
  · cases h
  · rename_i hkeep
    split at h
    · rename_i hpass
      exact ⟨(RelayLoc.learn.inj h).symm, by simpa using hkeep, by simpa using hpass⟩
    · split at h
      · split at h <;> cases h
      · cases h

theorem learned_stepped (h : ∀ t, f.LearnInv cfg t) (hstep : Stepped cfg f ev f') (t : ℕ) :
    f'.LearnInv cfg t := by
  cases hstep with
  | recv s path packet allow =>
    have hmono : ∀ q, f.Sent cfg t q → Sent cfg { f.setRelay s path (sink cfg packet allow) with
        received := Function.update f.received s (f.received s ++ [packet]) } t q := by
      intro q hq
      refine ⟨?_, hq.2⟩
      by_cases hts : t = s
      · subst hts
        simp only [Function.update_self]
        exact List.mem_append_left _ hq.1
      · simp only [Function.update_of_ne hts]
        exact hq.1
    refine ⟨fun path' q hl => ?_, fun q hq => hmono q ((h t).calls q hq)⟩
    by_cases hts : t = s
    · subst hts
      simp only [setRelay, Function.update_self, Function.update_apply] at hl
      split at hl
      · obtain ⟨rfl, hpass⟩ := sink_eq_learn hl
        refine ⟨?_, hpass⟩
        simp
      · exact hmono q ((h t).held path' q hl)
    · simp only [setRelay, Function.update_of_ne hts] at hl
      exact hmono q ((h t).held path' q hl)
  | learn s path packet hloc =>
    refine learnInv_move h s path _ rfl rfl (fun q => ?_) (fun q hq => ?_)
    · split <;> nofun
    · refine (List.mem_append.mp hq).imp_right fun hq => ?_
      obtain ⟨rfl, rfl⟩ := RouterCall.learnFromClientPacket.inj (List.mem_singleton.mp hq)
      exact (h t).held path q hloc
  | normalize s path packet r hloc hnorm =>
    exact learnInv_move h s path (.write r.1) rfl rfl nofun fun q hq => .inl hq
  | write s path packet wrote hloc =>
    exact learnInv_move h s path .recv rfl rfl nofun fun q hq => .inl hq
  | tryReply s path reply now hloc =>
    refine learnInv_move h s path _ rfl rfl (fun q => ?_) fun q hq => .inl hq
    split <;> nofun
  | offerReply s path p prefersDone hloc =>
    exact learnInv_move h s path .recv rfl rfl nofun fun q hq => .inl hq
  | register =>
    refine ⟨(h t).held, fun q hq => (h t).calls q ?_⟩
    simpa using hq
  | remove s =>
    refine ⟨(h t).held, fun q hq => (h t).calls q ?_⟩
    simpa using hq
  | read | goOn | limit | tryPiece | offerPiece | loop | close => exact ⟨(h t).held, (h t).calls⟩

theorem limits_tunnelMTU (cfg : PlaneConfig) : cfg.Limits cfg.tunnelMTU := ⟨min_le_right _ _, le_rfl⟩

theorem mtu_stepped (h : ∀ t, cfg.Limits (f.mtu t)) (hstep : Stepped cfg f ev f') (t : ℕ) :
    cfg.Limits (f'.mtu t) := by
  have hupdate : ∀ (s m : ℕ), cfg.Limits m → cfg.Limits (Function.update f.mtu s m t) := by
    intro s m hm
    rw [Function.update_apply]
    split
    · exact hm
    · exact h t
  cases hstep with
  | register => exact hupdate _ _ (limits_tunnelMTU cfg)
  | normalize s path packet r hloc hnorm =>
    dsimp only
    split
    · refine hupdate _ _ ⟨?_, min_le_right _ _⟩
      exact min_le_min_right _ (le_max_right _ _)
    · exact h t
  | recv | learn | write | tryReply | offerReply | read | goOn | limit | tryPiece
  | offerPiece | loop | close | remove => exact h t

/-- The calls of the router only grow. -/
theorem calls_stepped (hstep : Stepped cfg f ev f') : f.calls <+: f'.calls := by
  cases hstep with
  | register | learn | remove => exact List.prefix_append _ _
  | recv | normalize | write | tryReply | offerReply | read | goOn | limit | tryPiece
  | offerPiece | loop | close => exact List.prefix_rfl

theorem Inv.stepped (hi : f.Inv cfg) (hstep : Stepped cfg f ev f') : f'.Inv cfg := by
  have hcalls := calls_stepped hstep
  have hrouted : ∀ r ∈ f.routed, (r.1.calls <+: f'.calls ∧ r.1.Right) ∧ cfg.Limits r.2 := by
    intro r hr
    obtain ⟨⟨hpre, hright⟩, hlim⟩ := hi.routed r hr
    exact ⟨⟨hpre.trans hcalls, hright⟩, hlim⟩
  have hpending : ∀ r, f.router = .limit r → r.calls <+: f'.calls ∧ r.Right := fun r hr =>
    ⟨(hi.pending r hr).1.trans hcalls, (hi.pending r hr).2⟩
  refine ⟨lanes_stepped hi.lanes hstep, learned_stepped hi.learned hstep,
    order_stepped hi.order hstep, relays_stepped hi.relays hstep, mtu_stepped hi.mtu hstep, ?_, ?_⟩
  · cases hstep with
    | limit r out hloc hout =>
      intro q hq
      rcases List.mem_append.mp hq with hq | hq
      · exact hrouted q hq
      · obtain rfl := List.mem_singleton.mp hq
        exact ⟨hpending r hloc, hi.mtu r.session⟩
    | register | recv | learn | normalize | write | tryReply | offerReply | read | goOn | tryPiece
    | offerPiece | loop | close | remove => exact hrouted
  · cases hstep with
    | goOn loc hloc hfrom hto hto' hright hhand =>
      intro r hr
      obtain ⟨hsame, hr'⟩ := hright r hr
      exact ⟨hsame ▸ List.prefix_rfl, hr'⟩
    | read | limit => nofun
    | tryPiece s packet rest now hloc =>
      intro r hr
      dsimp only at hr
      split at hr <;> cases hr
    | offerPiece => nofun
    | register | recv | learn | normalize | write | tryReply | offerReply | loop | close | remove =>
      exact hpending

theorem inv_start (cfg : PlaneConfig) : (start cfg).Inv cfg where
  lanes _ := ⟨Scheduler.Inv.init, rfl⟩
  learned _ := ⟨nofun, nofun⟩
  order _ := ⟨[], rfl, List.Sublist.refl _⟩
  relays _ := ⟨fun _ => le_rfl, fun _ => le_rfl⟩
  mtu _ := limits_tunnelMTU cfg
  routed := by simp [start]
  pending := by simp [start]

/-- What is routed has been read. -/
theorem tunPackets_stepped (hstep : Stepped cfg f ev f') :
    f'.tunPackets.Sublist (f.tunPackets ++ readFromTUN [ev]) := by
  have hrefl : f.tunPackets.Sublist (f.tunPackets ++ readFromTUN [ev]) :=
    List.sublist_append_left _ _
  cases hstep with
  | read packet hloc => simp [tunPackets, hloc, RouterLoc.inHand, readFromTUN]
  | goOn loc hloc hfrom hto hto' hright hhand =>
    exact ((List.Sublist.refl _).append hhand).trans hrefl
  | limit r out hloc hout => simp [tunPackets, hloc, RouterLoc.inHand, readFromTUN]
  | tryPiece s packet rest now hloc =>
    have hnone : ∀ b : Bool, (if b = true then RouterLoc.emit s rest
        else .offer s ⟨packet, now⟩ rest).inHand = [] := by
      intro b
      cases b <;> rfl
    refine List.Sublist.trans ?_ hrefl
    rw [tunPackets, hnone, tunPackets, hloc]
    exact List.Sublist.refl _
  | offerPiece s p rest prefersDone hloc =>
    refine List.Sublist.trans ?_ hrefl
    rw [tunPackets, tunPackets, hloc]
    exact List.Sublist.refl _
  | register | recv | learn | normalize | write | tryReply | offerReply | loop | close | remove =>
    exact hrefl

/-- What is received has been sent by the client. -/
theorem received_stepped (hstep : Stepped cfg f ev f') (s : ℕ) :
    f'.received s = f.received s ++ receivedFrom s [ev] := by
  cases hstep with
  | recv t path packet allow =>
    by_cases hst : s = t
    · subst hst
      simp [receivedFrom]
    · simp [receivedFrom, hst, Ne.symm hst]
  | register | learn | normalize | write | tryReply | offerReply | read | goOn | limit | tryPiece
  | offerPiece | loop | close | remove => exact (List.append_nil _).symm

theorem tunPackets_run {evs : List PlaneEvent} (hrun : run (step cfg) f evs = some f') :
    f'.tunPackets.Sublist (f.tunPackets ++ readFromTUN evs) := by
  induction evs generalizing f with
  | nil =>
    obtain rfl := Option.some.inj hrun
    exact List.sublist_append_left _ _
  | cons ev evs ih =>
    obtain ⟨g, hg, hrest⟩ := Option.bind_eq_some_iff.mp hrun
    have hsplit : readFromTUN (ev :: evs) = readFromTUN [ev] ++ readFromTUN evs :=
      List.filterMap_append (l := [ev])
    rw [hsplit, ← List.append_assoc]
    exact (ih hrest).trans
      ((tunPackets_stepped (stepped_of_step hg)).append (List.Sublist.refl _))

theorem received_run {evs : List PlaneEvent} (hrun : run (step cfg) f evs = some f') (s : ℕ) :
    f'.received s = f.received s ++ receivedFrom s evs := by
  induction evs generalizing f with
  | nil =>
    obtain rfl := Option.some.inj hrun
    exact (List.append_nil _).symm
  | cons ev evs ih =>
    obtain ⟨g, hg, hrest⟩ := Option.bind_eq_some_iff.mp hrun
    have hsplit : receivedFrom s (ev :: evs) = receivedFrom s [ev] ++ receivedFrom s evs :=
      List.filterMap_append (l := [ev])
    rw [ih hrest, received_stepped (stepped_of_step hg), List.append_assoc, hsplit]

/-- **Every step keeps the invariant.** -/
theorem Inv.step (hi : f.Inv cfg) (h : f.step cfg ev = some f') : f'.Inv cfg :=
  hi.stepped (stepped_of_step h)

end Preservation

end Plane

/-! ## Forwarding -/

/-- The packets handed to the client of a session. -/
def handed (log : List LaneEvent) : List RoutedPacket := handedPrio log ++ handedOut log

/-- **Forwarding.** In every run, and for every session:
the TUN is given only packets that the client has sent and that may pass, with at most the MSS changed,
none of them more often than it was sent;
the client is given only pieces of packets from the TUN that were routed to it, and answers to its
own packets, none of them twice; in each lane the pieces come in the order of the TUN.
What is routed has been read from the TUN, in the same order. A packet is routed to a session only if
the latest packet from its destination came through that session, or if there was no other one; and
its pieces fit the limit of the session. -/
theorem forwarding_sound (cfg : PlaneConfig) (evs : List PlaneEvent) (f : Plane)
    (hrun : run (Plane.step cfg) (Plane.start cfg) evs = some f) (s : ℕ) :
    (f.writtenBy s).Subperm ((receivedFrom s evs).filterMap cfg.forward) ∧
    ((handed (f.log s)).Subperm ((f.puts s).map Prod.snd) ∧
      (handedPrio (f.log s)).Sublist ((f.puts s).map Prod.snd) ∧
      (handedOut (f.log s)).Sublist ((f.puts s).map Prod.snd)) ∧
    (putFrom .tun (f.puts s)).Sublist (f.expected cfg s) ∧
    (putFrom .reply (f.puts s)).Subperm ((receivedFrom s evs).filterMap cfg.answer) ∧
    (f.routed.map fun r => r.1.packet).Sublist (readFromTUN evs) ∧
    (∀ packet, .learnFromClientPacket s packet ∈ f.calls →
      packet ∈ receivedFrom s evs ∧ cfg.Passes packet) ∧
    ∀ r ∈ f.routed, cfg.Limits r.2 ∧ r.1.calls <+: f.calls ∧
      ((∃ src dst, packetEndpoints r.1.packet = some (src, dst) ∧
        MostRecent r.1.calls dst r.1.session) ∨
        (TunRouter.run r.1.calls).singleSession = some r.1.session) ∧
      (cfg.normalizeMSS = true →
        ∀ p ∈ (pieces true r.2 r.1.packet).getD [], p.length ≤ r.2) := by
  have hi : f.Inv cfg := run_keeps (fun _ _ _ hi hstep => hi.step hstep) (Plane.inv_start cfg) hrun
  obtain ⟨hlane, henq⟩ := hi.lanes s
  have hprio := hlane.prio.isPrefix.sublist
  have hout := hlane.out.isPrefix.sublist
  obtain ⟨hputPrio, hputOut⟩ := put_sublist (f.log s)
  have hreceived : f.received s = receivedFrom s evs := Plane.received_run hrun s
  rw [← henq, ← hreceived]
  refine ⟨(hi.relays s).written.subperm, ⟨?_, hprio.trans hputPrio, hout.trans hputOut⟩, ?_,
    (hi.relays s).replies.subperm, ?_, (hi.learned s).calls, fun r hr => ?_⟩
  · exact (hprio.append hout).subperm.trans (enqueued_perm (f.log s)).symm.subperm
  · obtain ⟨gone, heq, hsub⟩ := hi.order s
    rw [← heq]
    exact hsub.trans (List.sublist_append_left _ _)
  · exact (List.sublist_append_left _ _).trans (Plane.tunPackets_run hrun)
  · obtain ⟨⟨hpre, hright⟩, hlim⟩ := hi.routed r hr
    refine ⟨hlim, hpre, hright.imp_left ?_, fun _ => ?_⟩
    · rintro ⟨src, dst, hends, hby⟩
      exact ⟨src, dst, hends, mostRecent_of_byIP r.1.calls hby⟩
    · obtain ⟨out, hout, hfit⟩ := pieces_fit r.1.packet
        (hlim.2.trans (tunnelMTUFor_le cfg.configured))
      rw [hout]
      exact hfit

def sampleConfig : PlaneConfig := ⟨1400, true, false⟩

/-- A datagram for the address that the packet `samplePacket` comes from. -/
def sampleDatagram : Bytes :=
  [0x45, 0, 0, 28, 0, 1, 0, 0, 64, 17, 0, 0, 10, 0, 0, 2, 10, 0, 0, 1, 0, 53, 1, 2, 0, 8, 0, 0]

/-- Two clients; one sends an IPv4 packet, the other one an IPv6 packet. Then a datagram for the first
one comes from the TUN. -/
def samplePlane : List PlaneEvent :=
  [.registerSession, .registerSession,
   .recv 0 .udp samplePacket false, .relay 0 .udp 0 false true, .relay 0 .udp 0 false true,
   .relay 0 .udp 0 false true,
   .recv 1 .tcp (Ipv6.samplePacket sampleDestination 17 [1, 2, 3, 4]) true,
   .relay 1 .tcp 5 false false,
   .readTUN sampleDatagram, .router 6 false, .router 6 false, .router 7 false, .router 8 false,
   .loop 0 .prio 9, .loop 0 .prio 9, .loop 0 .prio 9]

def samplePlaneEnd : Plane := last (Plane.step sampleConfig) (Plane.start sampleConfig) samplePlane

theorem forwarding_sound_sample :
    (run (Plane.step sampleConfig) (Plane.start sampleConfig) samplePlane).isSome ∧
    samplePlaneEnd.written = [(0, samplePacket)] ∧
    (handed (samplePlaneEnd.log 0)).map RoutedPacket.buf = [sampleDatagram] ∧
    ((samplePlaneEnd.puts 1).map fun q => (q.1, q.2.buf.length)) = [(.reply, 92)] ∧
    (putFrom .tun (samplePlaneEnd.puts 0)).Sublist (samplePlaneEnd.expected sampleConfig 0) ∧
    (putFrom .reply (samplePlaneEnd.puts 1)).Subperm
      ((receivedFrom 1 samplePlane).filterMap sampleConfig.answer) := by
  have hrun : (run (Plane.step sampleConfig) (Plane.start sampleConfig) samplePlane).isSome := by
    decide +kernel
  exact ⟨hrun, by decide +kernel, by decide +kernel, by decide +kernel,
    (forwarding_sound sampleConfig samplePlane samplePlaneEnd (run_eq_last hrun) 0).2.2.1,
    (forwarding_sound sampleConfig samplePlane samplePlaneEnd (run_eq_last hrun) 1).2.2.2.1⟩

end ObsidianVPN.Server
