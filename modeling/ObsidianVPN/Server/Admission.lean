import ObsidianVPN.Client.Hello
import ObsidianVPN.Handshake.HelloStream
import ObsidianVPN.Lib.Holders
import ObsidianVPN.Lib.Machine
import ObsidianVPN.Server.Allowlist
import ObsidianVPN.Server.HandshakeSlots
import ObsidianVPN.Server.RateLimiter
import ObsidianVPN.Server.Revocation
import ObsidianVPN.Server.Router
import ObsidianVPN.Udp.Conversation

/-!
# The handlers of the server

`main` starts a `handleClient` for every connection. The handlers run side by side and share the
limiters, the replay cache, the revocation store, the UDP multiplexer and the router; a step is what
one handler does under one lock, or between two. `Allow` and `Seen` read the clock before they take
their lock.

* `Passed`, `Admitted`: a hello that has passed `ProcessClientHello`, and the revocation check too;
* `Progress`, `Shared`, `turn`: where a handler is, what they share, and the next step of a handler;
* `Moves`, `moves_of_turn`: what a step does;
* `slots_step`: the slots of `HandshakeSlots` are what one sees of the handlers;
* `Spaced`: two handlers that have looked up one hello did so at least two minutes apart;
* `Sessions`, `Routes`: what the handlers hold is what is open;
* **`admission_sound`**: who is served has been authenticated, is allowed and not revoked, no hello
  is answered twice, and when the handlers have returned nothing is left of them.
-/

namespace ObsidianVPN.Server

open ByteStr GoString Handshake ExpiryCache Holders Netip
open Udp (Tag UDPMux UDPSession newUDPMux newUDPSession deriveUDPKeys)

/-! ## The handlers -/

/-- What `main` has set up before it accepts connections. -/
structure ServerSetup where
  keys : ServerKeys
  limiter : LimiterConfig
  /-- There are a TUN and a router. -/
  tun : Bool
  /-- The data channel over UDP is configured, and its socket is open. -/
  udp : Bool

/-- A hello that has passed `ProcessClientHello`, with the handshake and the answer. -/
structure Passed (P : Primitives) (srv : ServerKeys) where
  arrival : Arrival
  hs : ServerHandshake Bytes
  acc : Accepted
  passed : processClientHello P srv.obfCfg
    (newServerHandshake P srv.priv srv.pub srv.allowed arrival.ephPriv) arrival.hello
    arrival.procNow arrival.coins arrival.draws = (hs, .ok acc)

/-- A hello whose sender has been looked up in the revocation store, and was not found. -/
structure Admitted (P : Primitives) (srv : ServerKeys) extends Passed P srv where
  store : Option RevocationStore
  file : FileState
  notRevoked : (isRevoked store hs.clientStaticPub file).1 = false

/-- Where a handler is, with its local variables. -/
inductive Progress (P : Primitives) (srv : ServerKeys) where
  | arrived
  /-- In `Allow`, which has read the clock. -/
  | counted (now : ℕ)
  /-- In `Acquire`, before the load. -/
  | acquiring
  /-- In `Acquire`, after it has loaded `cur`. -/
  | loaded (cur : ℤ)
  | preface
  | readHello
  | replayCache (hello : Bytes)
  /-- In `Seen`, which has read the clock. -/
  | lookingUp (hello : Bytes) (now : ℕ)
  | newHandshake (hello : Bytes) (seenNow : ℕ)
  | processHello (hello : Bytes) (seenNow : ℕ) (ephPriv : Bytes)
  | revocation (p : Passed P srv)
  | buildFrame (a : Admitted P srv)
  | writeHello (a : Admitted P srv) (frame : Bytes)
  /-- The answer is written. -/
  | ready (a : Admitted P srv)
  /-- The UDP session is registered. -/
  | registered (a : Admitted P srv) (session : ℕ)
  /-- In the relays, or in `echoLoop` without a TUN. -/
  | serving (a : Admitted P srv) (session route : Option ℕ)
  /-- The deferred calls of a session that is over: of the route, the UDP session and the tunnel. -/
  | closing (a : Admitted P srv) (session route : Option ℕ)
  /-- The deferred `Release`. -/
  | releasing (a : Option (Admitted P srv))
  /-- Returned without a slot. -/
  | refused
  | returned (a : Option (Admitted P srv))

/-- A connection: the address of the peer if it can be parsed, what is still to be read, and the
handler. -/
structure Conn (P : Primitives) (srv : ServerKeys) where
  ip : Option Addr
  input : Feed UInt8
  progress : Progress P srv

/-- The globals of the server. -/
structure Shared where
  clock : ℕ
  ipLimiter : IPRateLimiter Addr
  active : ℤ
  cache : Cache Bytes
  revocations : Option RevocationStore
  mux : UDPMux
  router : TunRouter

/-- What a step of a handler takes from outside: the revocation file, the random choices, and
whether the write succeeds. -/
structure TurnDraws where
  file : FileState
  ephPriv : Option Bytes
  coins : Bytes
  pad : PadDraws
  nonce : Bytes
  written : Bool

section Model

variable (P : Primitives) (S : ServerSetup)

def Conn.to {P : Primitives} {srv : ServerKeys} (c : Conn P srv) (p : Progress P srv) :
    Conn P srv :=
  { c with progress := p }

/-- The next step of a handler; `none` if it has returned or panics. -/
def turn (sh : Shared) (c : Conn P S.keys) (d : TurnDraws) : Option (Shared × Conn P S.keys) :=
  match c.progress with
  | .arrived => some (sh, c.to (.counted sh.clock))
  | .counted now =>
    let r := sh.ipLimiter.allow c.ip now
    some ({ sh with ipLimiter := r.2 }, c.to (if r.1 then .acquiring else .refused))
  | .acquiring =>
    some (sh, c.to (if sh.active ≥ S.limiter.max then .refused else .loaded sh.active))
  | .loaded cur =>
    if sh.active = cur then
      some ({ sh with active := cur + 1 },
        c.to (if S.limiter.firstStage = .preface then .preface else .readHello))
    else some (sh, c.to .acquiring)
  | .preface =>
    match readFullFeed Client.http2Preface.length c.input with
    | (.ok buf, rest) => some (sh, { c with
        input := rest
        progress := if buf = Client.http2Preface then .readHello else .releasing none })
    | (.error _, rest) => some (sh, { c with input := rest, progress := .releasing none })
  | .readHello =>
    match readHelloFrameFrom P S.keys.pub readFullFeed 4096 8192 c.input with
    | (.ok hello, rest) => some (sh, { c with input := rest, progress := .replayCache hello })
    | (.error _, rest) => some (sh, { c with input := rest, progress := .releasing none })
  | .replayCache hello => some (sh, c.to (.lookingUp hello sh.clock))
  | .lookingUp hello now =>
    let r := sh.cache.seenOrAdd (replayKey P hello) now
    some ({ sh with cache := r.2 }, c.to (if r.1 then .releasing none else .newHandshake hello now))
  | .newHandshake hello seenNow =>
    match d.ephPriv with
    | some ephPriv => some (sh, c.to (.processHello hello seenNow ephPriv))
    | none => some (sh, c.to (.releasing none))
  | .processHello hello seenNow ephPriv =>
    match h : processClientHello P S.keys.obfCfg
      (newServerHandshake P S.keys.priv S.keys.pub S.keys.allowed ephPriv) hello sh.clock d.coins
      d.pad with
    | (hs, .ok acc) =>
      some (sh, c.to (.revocation
        ⟨⟨hello, seenNow, sh.clock, ephPriv, d.coins, d.pad⟩, hs, acc, h⟩))
    | (_, .error _) => some (sh, c.to (.releasing none))
  | .revocation p =>
    match h : isRevoked sh.revocations p.hs.clientStaticPub d.file with
    | (false, store) =>
      some ({ sh with revocations := store },
        c.to (.buildFrame ⟨p, sh.revocations, d.file, congrArg Prod.fst h⟩))
    | (true, store) => some ({ sh with revocations := store }, c.to (.releasing none))
  | .buildFrame a =>
    match buildHelloFrame P S.keys.pub a.acc.hello d.nonce with
    | .ok frame => some (sh, c.to (.writeHello a frame))
    | .error _ => some (sh, c.to (.releasing none))
  | .writeHello a _ => some (sh, c.to (if d.written then .ready a else .releasing none))
  | .ready a =>
    -- The first four bytes of the session ID are logged, whatever follows.
    match a.hs.sessionKeys with
    | none => none
    | some keys =>
      if ¬S.tun then some (sh, c.to (.serving a none none))
      else if S.udp then
        some ({ sh with mux := sh.mux.registerSession (deriveUDPKeys P keys false) },
          c.to (.registered a sh.mux.sessions.length))
      else
        some ({ sh with router := sh.router.registerSession },
          c.to (.serving a none (some sh.router.registered)))
  | .registered a session =>
    some ({ sh with router := sh.router.registerSession },
      c.to (.serving a (some session) (some sh.router.registered)))
  | .serving a session route => some (sh, c.to (.closing a session route))
  | .closing a session (some route) =>
    some ({ sh with router := sh.router.close route }, c.to (.closing a session none))
  | .closing a (some session) none =>
    some ({ sh with mux := sh.mux.close session }, c.to (.closing a none none))
  | .closing a none none => some (sh, c.to (.releasing (some a)))
  | .releasing a => some ({ sh with active := sh.active - 1 }, c.to (.returned a))
  | .refused | .returned _ => none

/-- The server. -/
structure Handlers (P : Primitives) (srv : ServerKeys) where
  shared : Shared
  conns : List (Conn P srv)

inductive HandlersEvent where
  | accept (ip : Option Addr) (input : Feed UInt8)
  | turn (i : ℕ) (d : TurnDraws)
  | wait (ns : ℕ)
  /-- A listener looks a datagram up. -/
  | datagram (tag : Tag)
  /-- A relay shows a packet of its client to the router. -/
  | learn (route : ℕ) (packet : Bytes)

def Handlers.step (st : Handlers P S.keys) : HandlersEvent → Option (Handlers P S.keys)
  | .accept ip input => some { st with conns := st.conns ++ [⟨ip, input, .arrived⟩] }
  | .turn i d =>
    st.conns[i]?.bind fun c =>
      (turn P S st.shared c d).map fun (sh, c') => ⟨sh, st.conns.set i c'⟩
  | .wait ns => some { st with shared := { st.shared with clock := st.shared.clock + ns } }
  | .datagram tag => some { st with shared := { st.shared with mux := st.shared.mux.arrive tag } }
  | .learn route packet => some { st with
      shared := { st.shared with router := st.shared.router.learnFromClientPacket route packet } }

/-- The server before the first connection. -/
def Handlers.start (P : Primitives) {srv : ServerKeys} (ratePerSecond burst : ℤ) (now : ℕ)
    (revocations : Option RevocationStore) : Handlers P srv where
  shared :=
    { clock := now
      ipLimiter := newIPRateLimiter ratePerSecond burst now
      active := 0
      cache := newHandshakeReplayCache
      revocations := revocations
      mux := newUDPMux
      router := newTunRouter }
  conns := []

end Model

/-! ## What a handler has -/

namespace Progress

variable {P : Primitives} {srv : ServerKeys}

/-- The handler as the slots see it. -/
def slot : Progress P srv → Handler
  | .arrived | .counted _ => ⟨.arrived, 0, 0⟩
  | .acquiring => ⟨.acquiring, 0, 0⟩
  | .loaded cur => ⟨.loaded cur, 0, 0⟩
  | .preface => ⟨.shaking .preface, 1, 0⟩
  | .readHello => ⟨.shaking .readHello, 1, 0⟩
  | .replayCache _ | .lookingUp .. => ⟨.shaking .replayCache, 1, 0⟩
  | .newHandshake .. => ⟨.shaking .newHandshake, 1, 0⟩
  | .processHello .. => ⟨.shaking .processHello, 1, 0⟩
  | .revocation _ => ⟨.shaking .revocation, 1, 0⟩
  | .buildFrame _ => ⟨.shaking .buildFrame, 1, 0⟩
  | .writeHello .. => ⟨.shaking .writeHello, 1, 0⟩
  | .ready _ | .registered .. | .serving .. => ⟨.established, 1, 0⟩
  | .closing .. | .releasing (some _) => ⟨.ended, 1, 0⟩
  | .releasing none => ⟨.failed, 1, 0⟩
  | .refused => ⟨.closed, 0, 0⟩
  | .returned _ => ⟨.closed, 1, 1⟩

/-- The hello that has passed all checks. -/
def admission : Progress P srv → Option (Admitted P srv)
  | .buildFrame a | .writeHello a _ | .ready a | .registered a _ => some a
  | .serving a _ _ | .closing a _ _ => some a
  | .releasing a | .returned a => a
  | _ => none

/-- The hello that has passed `ProcessClientHello`. -/
def arrival : Progress P srv → Option Arrival
  | .revocation p => some p.arrival
  | p => p.admission.map fun a => a.arrival

/-- The hello that was new to the replay cache, and the time at which it was looked up. -/
def looked : Progress P srv → Option (Bytes × ℕ)
  | .newHandshake hello seenNow | .processHello hello seenNow _ => some (hello, seenNow)
  | p => p.arrival.map fun a => (a.hello, a.seenNow)

/-- The time of `ProcessClientHello`, which is the present at the earliest if it has not run. -/
def processed (clock : ℕ) (p : Progress P srv) : ℕ := (p.arrival.map Arrival.procNow).getD clock

def session : Progress P srv → Option ℕ
  | .registered _ session => some session
  | .serving _ session _ | .closing _ session _ => session
  | _ => none

def route : Progress P srv → Option ℕ
  | .serving _ _ route | .closing _ _ route => route
  | _ => none

/-- The handler has returned. -/
def Finished : Progress P srv → Prop
  | .refused | .returned _ => True
  | _ => False

end Progress

/-! ## What a step does -/

/-- The steps, without what they read and draw. -/
inductive Moves (P : Primitives) (S : ServerSetup) :
    Shared → Progress P S.keys → Shared → Progress P S.keys → Prop where
  | count (sh) : Moves P S sh .arrived sh (.counted sh.clock)
  | allow (sh now limiter) : Moves P S sh (.counted now) { sh with ipLimiter := limiter } .acquiring
  | limit (sh now limiter) : Moves P S sh (.counted now) { sh with ipLimiter := limiter } .refused
  | load (sh) : sh.active < S.limiter.max → Moves P S sh .acquiring sh (.loaded sh.active)
  | full (sh) : S.limiter.max ≤ sh.active → Moves P S sh .acquiring sh .refused
  | acquire (sh p) : p = (if S.limiter.firstStage = .preface then .preface else .readHello) →
      Moves P S sh (.loaded sh.active) { sh with active := sh.active + 1 } p
  | retry (sh cur) : sh.active ≠ cur → Moves P S sh (.loaded cur) sh .acquiring
  | preface (sh) : Moves P S sh .preface sh .readHello
  | hello (sh hello) : Moves P S sh .readHello sh (.replayCache hello)
  | look (sh hello) : Moves P S sh (.replayCache hello) sh (.lookingUp hello sh.clock)
  | new (sh hello now) : (sh.cache.seenOrAdd (replayKey P hello) now).1 = false →
      Moves P S sh (.lookingUp hello now)
        { sh with cache := (sh.cache.seenOrAdd (replayKey P hello) now).2 }
        (.newHandshake hello now)
  | replay (sh hello now) : Moves P S sh (.lookingUp hello now)
      { sh with cache := (sh.cache.seenOrAdd (replayKey P hello) now).2 } (.releasing none)
  | init (sh hello now ephPriv) :
      Moves P S sh (.newHandshake hello now) sh (.processHello hello now ephPriv)
  | process (sh ephPriv) (p : Passed P S.keys) : p.arrival.procNow = sh.clock →
      Moves P S sh (.processHello p.arrival.hello p.arrival.seenNow ephPriv) sh (.revocation p)
  | pass (sh) (a : Admitted P S.keys) : a.store = sh.revocations →
      Moves P S sh (.revocation a.toPassed)
        { sh with revocations := (isRevoked sh.revocations a.hs.clientStaticPub a.file).2 }
        (.buildFrame a)
  | revoke (sh p file) : Moves P S sh (.revocation p)
      { sh with revocations := (isRevoked sh.revocations p.hs.clientStaticPub file).2 }
      (.releasing none)
  | frame (sh a frame) : Moves P S sh (.buildFrame a) sh (.writeHello a frame)
  | answer (sh a frame) : Moves P S sh (.writeHello a frame) sh (.ready a)
  /-- A step of the handshake fails. -/
  | fail (sh p stage) : p.slot = ⟨.shaking stage, 1, 0⟩ → Moves P S sh p sh (.releasing none)
  | echo (sh a) : Moves P S sh (.ready a) sh (.serving a none none)
  | register (sh a keys) : a.hs.sessionKeys = some keys → Moves P S sh (.ready a)
      { sh with mux := sh.mux.registerSession (deriveUDPKeys P keys false) }
      (.registered a sh.mux.sessions.length)
  | tcp (sh a) : Moves P S sh (.ready a) { sh with router := sh.router.registerSession }
      (.serving a none (some sh.router.registered))
  | udp (sh a session) : Moves P S sh (.registered a session)
      { sh with router := sh.router.registerSession }
      (.serving a (some session) (some sh.router.registered))
  | finish (sh a session route) :
      Moves P S sh (.serving a session route) sh (.closing a session route)
  | unroute (sh a session route) : Moves P S sh (.closing a session (some route))
      { sh with router := sh.router.close route } (.closing a session none)
  | unregister (sh a session) : Moves P S sh (.closing a (some session) none)
      { sh with mux := sh.mux.close session } (.closing a none none)
  | close (sh a) : Moves P S sh (.closing a none none) sh (.releasing (some a))
  | release (sh a) : Moves P S sh (.releasing a) { sh with active := sh.active - 1 } (.returned a)

section Steps

variable {P : Primitives} {S : ServerSetup} {sh sh' : Shared} {c c' : Conn P S.keys} {d : TurnDraws}

/-- **Every step of a handler is one of these.** -/
theorem moves_of_turn (h : turn P S sh c d = some (sh', c')) :
    Moves P S sh c.progress sh' c'.progress := by
  obtain ⟨ip, input, progress⟩ := c
  cases progress with
  | arrived =>
    cases h
    exact .count sh
  | counted now =>
    cases h
    cases hallow : (sh.ipLimiter.allow ip now).1 with
    | true => exact .allow sh now _
    | false => exact .limit sh now _
  | acquiring =>
    cases h
    by_cases hfull : sh.active ≥ S.limiter.max
    · simpa only [Conn.to, if_pos hfull] using .full sh hfull
    · simpa only [Conn.to, if_neg hfull] using .load sh (not_le.mp hfull)
  | loaded cur =>
    simp only [turn] at h
    split at h
    · rename_i hcas
      subst hcas
      cases h
      exact .acquire sh _ rfl
    · rename_i hcas
      cases h
      exact .retry sh cur hcas
  | preface =>
    simp only [turn] at h
    split at h
    · rename_i buf rest hread
      cases h
      by_cases hbuf : buf = Client.http2Preface
      · simpa only [if_pos hbuf] using .preface sh
      · simpa only [if_neg hbuf] using .fail sh .preface .preface rfl
    · cases h
      exact .fail sh _ .preface rfl
  | readHello =>
    simp only [turn] at h
    split at h
    · cases h
      exact .hello sh _
    · cases h
      exact .fail sh _ .readHello rfl
  | replayCache hello =>
    cases h
    exact .look sh hello
  | lookingUp hello now =>
    cases h
    cases hseen : (sh.cache.seenOrAdd (replayKey P hello) now).1 with
    | true => simpa only [Conn.to, hseen] using .replay sh hello now
    | false => simpa only [Conn.to, hseen] using .new sh hello now hseen
  | newHandshake hello seenNow =>
    simp only [turn] at h
    split at h
    · cases h
      exact .init sh hello seenNow _
    · cases h
      exact .fail sh _ .newHandshake rfl
  | processHello hello seenNow ephPriv =>
    simp only [turn] at h
    split at h
    · rename_i hs acc hproc
      cases h
      exact .process sh ephPriv
        ⟨⟨hello, seenNow, sh.clock, ephPriv, d.coins, d.pad⟩, hs, acc, hproc⟩ rfl
    · cases h
      exact .fail sh _ .processHello rfl
  | revocation p =>
    simp only [turn] at h
    split at h
    · rename_i store hstore
      cases h
      have hpass := Moves.pass sh ⟨p, sh.revocations, d.file, congrArg Prod.fst hstore⟩ rfl
      simp only [hstore] at hpass
      exact hpass
    · rename_i store hstore
      cases h
      have hrevoke := Moves.revoke sh p d.file
      rw [hstore] at hrevoke
      exact hrevoke
  | buildFrame a =>
    simp only [turn] at h
    split at h
    · cases h
      exact .frame sh a _
    · cases h
      exact .fail sh _ .buildFrame rfl
  | writeHello a frame =>
    cases h
    cases hwritten : d.written with
    | true => simpa only [Conn.to, hwritten] using .answer sh a frame
    | false => simpa only [Conn.to, hwritten] using .fail sh (.writeHello a frame) .writeHello rfl
  | ready a =>
    simp only [turn] at h
    split at h
    · cases h
    · rename_i keys hkeys
      split at h
      · cases h
        exact .echo sh a
      · split at h
        · cases h
          exact .register sh a keys hkeys
        · cases h
          exact .tcp sh a
  | registered a session =>
    cases h
    exact .udp sh a session
  | serving a session route =>
    cases h
    exact .finish sh a session route
  | closing a session route =>
    cases route with
    | some route =>
      cases h
      exact .unroute sh a session route
    | none =>
      cases session with
      | some session =>
        cases h
        exact .unregister sh a session
      | none =>
        cases h
        exact .close sh a
  | releasing a =>
    cases h
    exact .release sh a
  | refused => cases h
  | returned a => cases h

variable {p p' : Progress P S.keys}

/-- **The slots see a step of theirs or none.** -/
theorem Moves.slot (h : Moves P S sh p sh' p') :
    (sh'.active = sh.active ∧ p'.slot = p.slot) ∨
      ∃ ok, p.slot.turn S.limiter sh.active ok = (sh'.active, p'.slot) := by
  cases h with
  | count | look | echo | register | tcp | udp | unroute | unregister | close =>
    exact .inl ⟨rfl, rfl⟩
  | limit | replay | revoke => exact .inr ⟨false, rfl⟩
  | load hlt => exact .inr ⟨true, by simp [Handler.turn, Progress.slot, not_le.mpr hlt]⟩
  | full hle => exact .inr ⟨true, by simp [Handler.turn, Progress.slot, hle]⟩
  | acquire _ hp =>
    refine .inr ⟨true, ?_⟩
    have hslot : p'.slot = ⟨.shaking S.limiter.firstStage, 1, 0⟩ := by
      subst hp
      unfold LimiterConfig.firstStage
      split <;> rfl
    rw [hslot]
    simp [Handler.turn, Progress.slot]
  | retry cur hcas => exact .inr ⟨true, by simp [Handler.turn, Progress.slot, hcas]⟩
  | fail _ stage hp => exact .inr ⟨false, by rw [hp]; rfl⟩
  | release a => exact .inr ⟨true, by cases a <;> rfl⟩
  | _ => exact .inr ⟨true, rfl⟩

/-- A handler that may still fail has no session and no route. -/
theorem held_of_shaking {stage : Stage} (hp : p.slot = ⟨.shaking stage, 1, 0⟩) :
    p.session = none ∧ p.route = none := by
  cases p with
  | registered | serving | closing => simp [Progress.slot] at hp
  | _ => exact ⟨rfl, rfl⟩

/-- What a step does to the multiplexer. -/
theorem Moves.mux (h : Moves P S sh p sh' p') :
    (sh'.mux = sh.mux ∧ p'.session = p.session ∧ (p.session ≠ none → p'.admission = p.admission)) ∨
      (∃ a keys, a.hs.sessionKeys = some keys ∧ p.session = none ∧ p'.admission = some a ∧
        p'.session = some sh.mux.sessions.length ∧
        sh'.mux = sh.mux.registerSession (deriveUDPKeys P keys false)) ∨
      ∃ s, p.session = some s ∧ p'.session = none ∧ sh'.mux = sh.mux.close s := by
  cases h with
  | register a keys hkeys => exact .inr (.inl ⟨a, keys, hkeys, rfl, rfl, rfl, rfl⟩)
  | unregister a s => exact .inr (.inr ⟨s, rfl, rfl, rfl⟩)
  | acquire _ hp =>
    refine .inl ⟨rfl, ?_, fun hne => absurd rfl hne⟩
    subst hp
    split <;> rfl
  | fail _ stage hp =>
    have hnone := (held_of_shaking hp).1
    exact .inl ⟨rfl, hnone.symm, fun hne => absurd hnone hne⟩
  | udp | finish | unroute => exact .inl ⟨rfl, rfl, fun _ => rfl⟩
  | _ => exact .inl ⟨rfl, rfl, fun hne => absurd rfl hne⟩

/-- What a step does to the router. -/
theorem Moves.router (h : Moves P S sh p sh' p') :
    (sh'.router = sh.router ∧ p'.route = p.route) ∨
      (p.route = none ∧ p'.route = some sh.router.registered ∧
        sh'.router = sh.router.registerSession) ∨
      ∃ r, p.route = some r ∧ p'.route = none ∧ sh'.router = sh.router.close r := by
  cases h with
  | tcp | udp => exact .inr (.inl ⟨rfl, rfl, rfl⟩)
  | unroute a s r => exact .inr (.inr ⟨r, rfl, rfl, rfl⟩)
  | acquire _ hp =>
    refine .inl ⟨rfl, ?_⟩
    subst hp
    split <;> rfl
  | fail _ stage hp => exact .inl ⟨rfl, (held_of_shaking hp).2.symm⟩
  | _ => exact .inl ⟨rfl, rfl⟩

/-- What a step does to the revocation store. -/
theorem Moves.store (h : Moves P S sh p sh' p') :
    (sh'.revocations = sh.revocations ∨
      ∃ key file, sh'.revocations = (isRevoked sh.revocations key file).2) ∧
    ∀ a, p'.admission = some a → p.admission = some a ∨ a.store = sh.revocations := by
  cases h with
  | pass a hstore =>
    refine ⟨.inr ⟨_, _, rfl⟩, fun b hb => .inr ?_⟩
    obtain rfl := Option.some.inj hb
    exact hstore
  | revoke q file =>
    refine ⟨.inr ⟨_, _, rfl⟩, fun b hb => ?_⟩
    cases hb
  | acquire _ hp =>
    refine ⟨.inl rfl, fun b hb => ?_⟩
    subst hp
    split at hb <;> cases hb
  | count | allow | limit | load | full | retry | preface | hello | look | new | replay | init
  | process | fail =>
    refine ⟨.inl rfl, fun b hb => ?_⟩
    cases hb
  | _ => exact ⟨.inl rfl, fun b hb => .inl hb⟩

/-- The times a handler has read are not in the future. -/
def Progress.Timely (clock : ℕ) : Progress P S.keys → Prop
  | .lookingUp _ now => now ≤ clock
  | p => ∀ a, p.arrival = some a → a.procNow ≤ clock

theorem Moves.timely (h : Moves P S sh p sh' p') (hp : p.Timely sh.clock) :
    p'.Timely sh'.clock := by
  cases h with
  | look => exact le_refl _
  | process ephPriv q hnow =>
    intro a ha
    obtain rfl := Option.some.inj ha
    exact hnow.le
  | acquire _ hp =>
    subst hp
    split <;> exact fun a ha => nomatch ha
  | count | allow | limit | load | full | retry | preface | hello | new | replay | init | revoke
  | fail => exact fun a ha => nomatch ha
  | _ => exact hp

/-- What a step does to the replay cache. -/
theorem Moves.cache (h : Moves P S sh p sh' p') :
    sh'.clock = sh.clock ∧
    ((sh'.cache = sh.cache ∧ (p'.looked = none ∨
        (p'.looked = p.looked ∧ p'.processed sh.clock = p.processed sh.clock))) ∨
      ∃ hello now, p = .lookingUp hello now ∧
        sh'.cache = (sh.cache.seenOrAdd (replayKey P hello) now).2 ∧ (p'.looked = none ∨
          (sh.cache.seenOrAdd (replayKey P hello) now).1 = false ∧ p'.looked = some (hello, now) ∧
            p'.processed sh.clock = sh.clock)) := by
  cases h with
  | new hello now hnew => exact ⟨rfl, .inr ⟨hello, now, rfl, rfl, .inr ⟨hnew, rfl, rfl⟩⟩⟩
  | replay hello now => exact ⟨rfl, .inr ⟨hello, now, rfl, rfl, .inl rfl⟩⟩
  | acquire _ hp =>
    refine ⟨rfl, .inl ⟨rfl, .inl ?_⟩⟩
    subst hp
    split <;> rfl
  | process ephPriv q hnow => exact ⟨rfl, .inl ⟨rfl, .inr ⟨rfl, hnow⟩⟩⟩
  | count | allow | limit | load | full | retry | preface | hello | look | revoke | fail =>
    exact ⟨rfl, .inl ⟨rfl, .inl rfl⟩⟩
  | release a => exact ⟨rfl, .inl ⟨rfl, .inr ⟨by cases a <;> rfl, by cases a <;> rfl⟩⟩⟩
  | _ => exact ⟨rfl, .inl ⟨rfl, .inr ⟨rfl, rfl⟩⟩⟩

end Steps

/-! ## What the server keeps -/

section Invariants

variable {P : Primitives} {S : ServerSetup} {st st' : Handlers P S.keys} {e : HandlersEvent}

theorem moves_of_step {i : ℕ} {d : TurnDraws} (h : st.step P S (.turn i d) = some st') :
    ∃ c c', st.conns[i]? = some c ∧ Moves P S st.shared c.progress st'.shared c'.progress ∧
      st'.conns = st.conns.set i c' := by
  obtain ⟨c, hc, h⟩ := Option.bind_eq_some_iff.mp h
  obtain ⟨⟨sh, c'⟩, hturn, rfl⟩ := Option.map_eq_some_iff.mp h
  exact ⟨c, c', hc, moves_of_turn hturn, rfl⟩

/-- A property of every connection is kept if the one that moves keeps it. -/
theorem forall_mem_set {α : Type*} {q : α → Prop} {l : List α} {i : ℕ} {x : α} (hx : q x)
    (h : ∀ y ∈ l, q y) : ∀ y ∈ l.set i x, q y := by
  intro y hy
  rcases List.mem_or_eq_of_mem_set hy with hy | rfl
  · exact h y hy
  · exact hx

theorem forall_mem_concat {α : Type*} {q : α → Prop} {l : List α} {x : α} (hx : q x)
    (h : ∀ y ∈ l, q y) : ∀ y ∈ l ++ [x], q y := by
  intro y hy
  rcases List.mem_append.mp hy with hy | hy
  · exact h y hy
  · exact List.mem_singleton.mp hy ▸ hx

/-! ### Slots -/

/-- What one sees of the handlers through their phases. -/
def Handlers.slots {srv : ServerKeys} (st : Handlers P srv) : Slots :=
  ⟨st.shared.active, st.conns.map fun c => c.progress.slot⟩

/-- **A step of the server is a step of the slots or none.** -/
theorem slots_step (h : st.step P S e = some st') :
    st'.slots = st.slots ∨ ∃ e', st'.slots = st.slots.step S.limiter e' := by
  cases e with
  | accept ip input =>
    cases h
    exact .inr ⟨.accept, by simp [Handlers.slots, Slots.step, Progress.slot]⟩
  | turn i d =>
    obtain ⟨c, c', hc, hmoves, hconns⟩ := moves_of_step h
    have hmap : (st.conns.map fun c => c.progress.slot)[i]? = some c.progress.slot := by
      rw [List.getElem?_map, hc]
      rfl
    rcases hmoves.slot with ⟨hactive, hslot⟩ | ⟨ok, hturn⟩
    · refine .inl ?_
      rw [Handlers.slots, Handlers.slots, hactive, hconns, List.map_set, hslot]
      obtain ⟨hlt, heq⟩ := List.getElem?_eq_some_iff.mp hmap
      rw [← heq, List.set_getElem_self]
    · refine .inr ⟨.turn i ok, ?_⟩
      simp only [Handlers.slots, Slots.step, hmap, hturn, hconns, List.map_set]
  | wait | datagram | learn =>
    cases h
    exact .inl rfl

/-- The counter is at most the limit, and so is what `Acquire` may put into it. -/
structure Slots.Bounded (cfg : LimiterConfig) (s : Slots) : Prop where
  active_le : s.active ≤ max 0 cfg.max
  loaded_lt : ∀ h ∈ s.handlers, ∀ cur, h.phase = .loaded cur → cur < cfg.max

/-- A step of a handler keeps the limit. -/
theorem Handler.turn_bounded {cfg : LimiterConfig} {active : ℤ} (hle : active ≤ max 0 cfg.max)
    {g : Handler} (hlt : ∀ cur, g.phase = .loaded cur → cur < cfg.max) (ok : Bool) :
    (g.turn cfg active ok).1 ≤ max 0 cfg.max ∧
      ∀ cur, (g.turn cfg active ok).2.phase = .loaded cur → cur < cfg.max := by
  obtain ⟨phase, acquired, released⟩ := g
  cases phase with
  | arrived =>
    refine ⟨hle, ?_⟩
    intro cur hcur
    cases ok <;> cases hcur
  | acquiring =>
    refine ⟨hle, ?_⟩
    intro cur hcur
    simp only [Handler.turn] at hcur
    split at hcur
    · cases hcur
    · rename_i hfull
      cases hcur
      exact not_le.mp hfull
  | loaded cur =>
    have hcur := hlt cur rfl
    by_cases hcas : active = cur
    · simp only [Handler.turn, hcas, if_true]
      refine ⟨by omega, ?_⟩
      intro c hc
      cases hc
    · simp only [Handler.turn, hcas, if_false]
      refine ⟨hle, ?_⟩
      intro c hc
      cases hc
  | shaking stage =>
    constructor
    · cases ok <;> cases stage <;> exact hle
    · intro cur hcur
      cases ok <;> cases stage <;> cases hcur
  | failed | ended =>
    simp only [Handler.turn]
    refine ⟨by omega, ?_⟩
    intro cur hcur
    cases hcur
  | established | closed =>
    refine ⟨hle, ?_⟩
    intro cur hcur
    cases hcur

theorem Slots.Bounded.step {cfg : LimiterConfig} {s : Slots} (h : s.Bounded cfg) (e : SlotEvent) :
    (s.step cfg e).Bounded cfg := by
  cases e with
  | accept =>
    refine ⟨h.active_le, forall_mem_concat ?_ h.loaded_lt⟩
    intro cur hcur
    cases hcur
  | turn i ok =>
    cases hi : s.handlers[i]? with
    | none =>
      have hstep : s.step cfg (.turn i ok) = s := by simp only [Slots.step, hi]
      rwa [hstep]
    | some g =>
      obtain ⟨hle, hlt⟩ := Handler.turn_bounded h.active_le
        (h.loaded_lt g (List.mem_of_getElem? hi)) ok
      simp only [Slots.step, hi]
      exact ⟨hle, forall_mem_set hlt h.loaded_lt⟩

/-! ### Revocations -/

/-- The handlers use the store as the look-ups before have left it. -/
structure StoreKept (r₀ : Option RevocationStore) (st : Handlers P S.keys) : Prop where
  store : ∃ l, st.shared.revocations = afterAttempts r₀ l
  admitted : ∀ c ∈ st.conns, ∀ a, c.progress.admission = some a → ∃ l, a.store = afterAttempts r₀ l

theorem StoreKept.step {r₀ : Option RevocationStore} (hst : StoreKept r₀ st)
    (h : st.step P S e = some st') : StoreKept r₀ st' := by
  cases e with
  | accept ip input =>
    cases h
    exact ⟨hst.store, forall_mem_concat (fun a ha => nomatch ha) hst.admitted⟩
  | turn i d =>
    obtain ⟨c, c', hc, hmoves, hconns⟩ := moves_of_step h
    obtain ⟨hstore, hadmission⟩ := hmoves.store
    obtain ⟨l, hl⟩ := hst.store
    refine ⟨?_, hconns ▸ forall_mem_set (fun a ha => ?_) hst.admitted⟩
    · rcases hstore with hsame | ⟨key, file, hnew⟩
      · exact ⟨l, hsame.trans hl⟩
      · refine ⟨l ++ [⟨key, file⟩], ?_⟩
        rw [hnew, hl, afterAttempts, afterAttempts, List.foldl_append]
        rfl
    · rcases hadmission a ha with hold | hnow
      · exact hst.admitted c (List.mem_of_getElem? hc) a hold
      · exact ⟨l, hnow.trans hl⟩
  | wait | datagram | learn =>
    cases h
    exact ⟨hst.store, hst.admitted⟩

/-! ### Replays -/

/-- Two handlers to which one hello was new: the cache had forgotten the earlier one when the later
one came to `ProcessClientHello`. -/
def Progress.Apart (clock : ℕ) (p q : Progress P S.keys) : Prop :=
  ∀ hello t t', p.looked = some (hello, t) → q.looked = some (hello, t') →
    t + 120 * second ≤ q.processed clock ∨ t' + 120 * second ≤ p.processed clock

theorem Progress.Apart.symm {clock : ℕ} {p q : Progress P S.keys} (h : p.Apart clock q) :
    q.Apart clock p := fun hello t t' hq hp => (h hello t' t hp hq).symm

theorem Progress.le_processed (p : Progress P S.keys) {clock clock' : ℕ} (hle : clock ≤ clock') :
    p.processed clock ≤ p.processed clock' := by
  unfold Progress.processed
  cases p.arrival with
  | none => exact hle
  | some a => exact le_refl _

/-- Any two members of a list are related. -/
def Pairs {α : Type*} (R : α → α → Prop) (l : List α) : Prop :=
  ∀ (i j : ℕ) (x y : α), i ≠ j → l[i]? = some x → l[j]? = some y → R x y

/-- One member of the list has changed. -/
theorem Pairs.set {α : Type*} {R : α → α → Prop} {l : List α} (h : Pairs R l)
    (hsymm : ∀ x y, R x y → R y x) {k : ℕ} {x : α}
    (hx : ∀ (j : ℕ) (y : α), j ≠ k → l[j]? = some y → R x y) : Pairs R (l.set k x) := by
  intro i j y z hne hy hz
  by_cases hi : k = i
  · subst hi
    rw [List.getElem?_set_ne hne] at hz
    rw [List.getElem?_set] at hy
    simp only [if_true, Option.ite_none_right_eq_some, Option.some.injEq] at hy
    exact hy.2 ▸ hx j z hne.symm hz
  · rw [List.getElem?_set_ne hi] at hy
    by_cases hj : k = j
    · subst hj
      rw [List.getElem?_set] at hz
      simp only [if_true, Option.ite_none_right_eq_some, Option.some.injEq] at hz
      exact hz.2 ▸ hsymm _ _ (hx i y hne hy)
    · rw [List.getElem?_set_ne hj] at hz
      exact h i j y z hne hy hz

/-- **The replay cache keeps the handlers of one hello apart.** -/
structure Spaced (st : Handlers P S.keys) : Prop where
  ttl : st.shared.cache.ttl = 120 * second
  timely : ∀ c ∈ st.conns, c.progress.Timely st.shared.clock
  remembered : ∀ c ∈ st.conns, ∀ hello t, c.progress.looked = some (hello, t) →
    Remembers st.shared.cache (replayKey P hello) t st.shared.clock
  apart : Pairs (fun c c' => c.progress.Apart st.shared.clock c'.progress) st.conns

theorem Spaced.move (hst : Spaced st) {i : ℕ} {c c' : Conn P S.keys} (hc : st.conns[i]? = some c)
    (h : Moves P S st.shared c.progress st'.shared c'.progress)
    (hconns : st'.conns = st.conns.set i c') : Spaced st' := by
  have hmem := List.mem_of_getElem? hc
  have htimely := h.timely (hst.timely c hmem)
  obtain ⟨hclock, ⟨hcache, hlooked⟩ | ⟨hello, now, hp, hcache, hlooked⟩⟩ := h.cache
  · refine ⟨hcache ▸ hst.ttl, ?_, ?_, ?_⟩
    · rw [hconns]
      exact forall_mem_set htimely (hclock ▸ hst.timely)
    · rw [hconns, hcache, hclock]
      refine forall_mem_set (fun hello t ht => ?_) hst.remembered
      rcases hlooked with hnone | ⟨hsame, -⟩
      · rw [hnone] at ht
        cases ht
      · exact hst.remembered c hmem hello t (hsame ▸ ht)
    · rw [hconns, hclock]
      refine hst.apart.set (fun x y hxy => hxy.symm) fun j y hj hy => ?_
      intro hello t t' ht ht'
      rcases hlooked with hnone | ⟨hsame, hprocessed⟩
      · rw [hnone] at ht
        cases ht
      · rw [hprocessed]
        exact hst.apart i j c y hj.symm hc hy hello t t' (hsame ▸ ht) ht'
  · -- a look-up in the cache
    have hnow : now ≤ st.shared.clock := by
      have := hst.timely c hmem
      rwa [hp] at this
    refine ⟨?_, ?_, ?_, ?_⟩
    · rw [hcache, seenOrAdd_ttl]
      exact hst.ttl
    · rw [hconns]
      exact forall_mem_set htimely (hclock ▸ hst.timely)
    · rw [hconns, hcache, hclock]
      refine forall_mem_set (fun hello' t ht => ?_)
        fun y hy hello' t ht => (hst.remembered y hy hello' t ht).seenOrAdd hnow
      rcases hlooked with hnone | ⟨hnew, hlooked, -⟩
      · rw [hnone] at ht
        cases ht
      · obtain ⟨rfl, rfl⟩ := Prod.mk.inj (Option.some.inj (hlooked.symm.trans ht))
        exact remembers_admitted hnew
    · rw [hconns, hclock]
      refine hst.apart.set (fun x y hxy => hxy.symm) fun j y hj hy => ?_
      intro hello' t t' ht ht'
      rcases hlooked with hnone | ⟨hnew, hlooked, hprocessed⟩
      · rw [hnone] at ht
        cases ht
      · -- the other handler's entry has expired, and this one is still before `ProcessClientHello`
        obtain ⟨rfl, rfl⟩ := Prod.mk.inj (Option.some.inj (hlooked.symm.trans ht))
        have hold := (hst.remembered y (List.mem_of_getElem? hy) hello t' ht').of_admitted hnow hnew
        rw [hst.ttl] at hold
        exact .inr (hold.trans_eq hprocessed.symm)

theorem Spaced.step (hst : Spaced st) (h : st.step P S e = some st') : Spaced st' := by
  cases e with
  | accept ip input =>
    cases h
    refine ⟨hst.ttl, forall_mem_concat (fun a ha => nomatch ha) hst.timely,
      forall_mem_concat (fun _ _ ht => nomatch ht) hst.remembered, ?_⟩
    intro i j c c' hne hc hc' hello t t' ht ht'
    have hold : ∀ (k : ℕ) (x : Conn P S.keys) u,
        (st.conns ++ [⟨ip, input, .arrived⟩])[k]? = some x → x.progress.looked = some u →
          st.conns[k]? = some x := by
      intro k x u hx hu
      rcases lt_or_ge k st.conns.length with hk | hk
      · rwa [List.getElem?_append_left hk] at hx
      · rw [List.getElem?_append_right hk] at hx
        obtain rfl := List.mem_singleton.mp (List.mem_of_getElem? hx)
        cases hu
    exact hst.apart i j c c' hne (hold i c _ hc ht) (hold j c' _ hc' ht') hello t t' ht ht'
  | turn i d =>
    obtain ⟨c, c', hc, hmoves, hconns⟩ := moves_of_step h
    exact hst.move hc hmoves hconns
  | wait ns =>
    cases h
    have hle := Nat.le_add_right st.shared.clock ns
    refine ⟨hst.ttl, fun c hc => ?_,
      fun c hc hello t ht => (hst.remembered c hc hello t ht).mono hle, fun i j c c' hne hc hc' hello t t' ht ht' => ?_⟩
    · have := hst.timely c hc
      unfold Progress.Timely at this ⊢
      split at this
      · exact this.trans hle
      · exact fun a ha => (this a ha).trans hle
    · exact (hst.apart i j c c' hne hc hc' hello t t' ht ht').imp
        (fun hlate => hlate.trans (c'.progress.le_processed hle))
        fun hlate => hlate.trans (c.progress.le_processed hle)
  | datagram | learn =>
    cases h
    exact ⟨hst.ttl, hst.timely, hst.remembered, hst.apart⟩

/-! ### UDP sessions -/

/-- A handler has the session `s`, with the keys of its own handshake. -/
def Keyed (mux : UDPMux) (p : Progress P S.keys) : Prop :=
  ∀ s, p.session = some s → ∃ a keys, p.admission = some a ∧ a.hs.sessionKeys = some keys ∧
    mux.Open s (newUDPSession (deriveUDPKeys P keys false))

/-- **The open sessions are those of the handlers**, and the table leads to open sessions only. -/
structure Sessions (st : Handlers P S.keys) : Prop where
  accounted : Accounted (st.conns.filterMap fun c => c.progress.session)
    fun s => ∃ x, st.shared.mux.Open s x
  keyed : ∀ c ∈ st.conns, Keyed st.shared.mux c.progress
  table : ∀ t s, st.shared.mux.table.get t = some s → ∃ x, st.shared.mux.Open s x ∧ x.tag = t

theorem not_open_length (mux : UDPMux) : ¬∃ x, mux.Open mux.sessions.length x := by
  rintro ⟨x, hx⟩
  exact absurd hx.lt (lt_irrefl _)

theorem open_registerSession_of_open {mux : UDPMux} {s : ℕ} {x : UDPSession} (hx : mux.Open s x)
    (keys : Udp.UDPKeys) : (mux.registerSession keys).Open s x := by
  refine ⟨?_, hx.2⟩
  rw [UDPMux.registerSession, List.getElem?_append_left hx.lt]
  exact hx.1

theorem open_close_of_open {mux : UDPMux} {s s' : ℕ} {x y : UDPSession} (hx : mux.Open s x)
    (hy : mux.Open s' y) (hne : s ≠ s') : (mux.close s').Open s x := by
  refine ⟨?_, hx.2⟩
  rw [Udp.sessions_close mux hy.1 hy.2, if_neg hne]
  exact hx.1

theorem Sessions.move (hst : Sessions st) {i : ℕ} {c c' : Conn P S.keys}
    (hc : st.conns[i]? = some c) (h : Moves P S st.shared c.progress st'.shared c'.progress)
    (hconns : st'.conns = st.conns.set i c') : Sessions st' := by
  have hmem := List.mem_of_getElem? hc
  obtain ⟨hmux, hsession, hadmission⟩ | ⟨a, keys, hkeys, hnone, hadmission, hsession, hmux⟩ |
    ⟨s, hsome, hnone, hmux⟩ := h.mux
  · refine ⟨?_, ?_, hmux ▸ hst.table⟩
    · rw [hconns, hmux, filterMap_set_same hc hsession]
      exact hst.accounted
    · rw [hconns, hmux]
      refine forall_mem_set (fun s hs => ?_) hst.keyed
      rw [hsession] at hs
      rw [hadmission (by rw [hs]; exact Option.some_ne_none s)]
      exact hst.keyed c hmem s hs
  · have hnew : st'.shared.mux.Open st.shared.mux.sessions.length
        (newUDPSession (deriveUDPKeys P keys false)) := by
      rw [hmux]
      exact ⟨List.getElem?_concat_length, rfl⟩
    refine ⟨?_, ?_, ?_⟩
    · rw [hconns, hmux]
      exact hst.accounted.take (perm_filterMap_set_take hc hnone hsession) (not_open_length _)
        (Udp.exists_open_registerSession _ _)
    · rw [hconns]
      refine forall_mem_set (fun s hs => ?_) fun y hy s hs => ?_
      · obtain rfl := Option.some.inj (hsession.symm.trans hs)
        exact ⟨a, keys, hadmission, hkeys, hnew⟩
      · obtain ⟨b, keys', hb, hkeys', hopen⟩ := hst.keyed y hy s hs
        exact ⟨b, keys', hb, hkeys', hmux ▸ open_registerSession_of_open hopen _⟩
    · intro t s hs
      rw [hmux, Udp.get_registerSession] at hs
      split at hs
      · rename_i ht
        obtain rfl := Option.some.inj hs
        exact ⟨_, hnew, ht.symm⟩
      · obtain ⟨x, hx, htag⟩ := hst.table t s hs
        exact ⟨x, hmux ▸ open_registerSession_of_open hx _, htag⟩
  · obtain ⟨x, hx⟩ := (hst.accounted.mem_iff s).mp (List.mem_filterMap.mpr ⟨c, hmem, hsome⟩)
    have hperm := perm_filterMap_set_drop (f := fun c : Conn P S.keys => c.progress.session) hc hsome
      hnone
    refine ⟨?_, ?_, ?_⟩
    · rw [hconns, hmux]
      exact hst.accounted.drop hperm (Udp.exists_open_close hx)
    · rw [hconns, hmux]
      intro y hy s' hs'
      have hrest : s' ∈ (st.conns.set i c').filterMap fun c => c.progress.session :=
        List.mem_filterMap.mpr ⟨y, hy, hs'⟩
      have hne : s' ≠ s := by
        rintro rfl
        exact (List.nodup_cons.mp (hperm.nodup_iff.mp hst.accounted.nodup)).1 hrest
      rcases List.mem_or_eq_of_mem_set hy with hy | rfl
      · obtain ⟨b, keys, hb, hkeys, hopen⟩ := hst.keyed y hy s' hs'
        exact ⟨b, keys, hb, hkeys, open_close_of_open hopen hx hne⟩
      · rw [hnone] at hs'
        cases hs'
    · intro t s' hs'
      rw [hmux, Udp.get_close _ hx.1 hx.2] at hs'
      split at hs'
      · cases hs'
      · rename_i hkept
        obtain ⟨y, hy, htag⟩ := hst.table t s' hs'
        have hne : s' ≠ s := by
          rintro rfl
          obtain rfl := Option.some.inj (hx.1.symm.trans hy.1)
          exact hkept (.inl htag.symm)
        exact ⟨y, hmux ▸ open_close_of_open hy hx hne, htag⟩

theorem Sessions.step (hst : Sessions st) (h : st.step P S e = some st') : Sessions st' := by
  cases e with
  | accept ip input =>
    cases h
    refine ⟨?_, forall_mem_concat (fun s hs => nomatch hs) hst.keyed, hst.table⟩
    rw [List.filterMap_append]
    simpa [Progress.session] using hst.accounted
  | turn i d =>
    obtain ⟨c, c', hc, hmoves, hconns⟩ := moves_of_step h
    exact hst.move hc hmoves hconns
  | datagram tag =>
    cases h
    have hopen : ∀ s x, (st.shared.mux.arrive tag).Open s x ↔ st.shared.mux.Open s x := by
      intro s x
      rw [UDPMux.Open, UDPMux.Open, Udp.arrive_sessions]
    refine ⟨hst.accounted.congr fun s => exists_congr (hopen s), fun c hc s hs => ?_,
      fun t s hs => ?_⟩
    · obtain ⟨a, keys, ha, hkeys, hx⟩ := hst.keyed c hc s hs
      exact ⟨a, keys, ha, hkeys, (hopen s _).mpr hx⟩
    · rw [Udp.arrive_table] at hs
      obtain ⟨x, hx, htag⟩ := hst.table t s hs
      exact ⟨x, (hopen s x).mpr hx, htag⟩
  | wait | learn =>
    cases h
    exact ⟨hst.accounted, hst.keyed, hst.table⟩

/-! ### Routes -/

/-- **The sessions of the router are those of the handlers.** -/
structure Routes (st : Handlers P S.keys) : Prop where
  inv : st.shared.router.Inv
  accounted : Accounted (st.conns.filterMap fun c => c.progress.route)
    fun r => r ∈ st.shared.router.sessions

theorem mem_close_iff {r : TunRouter} (h : r.Inv) {s : ℕ} (hs : s ∈ r.sessions) (s' : ℕ) :
    s' ∈ (r.close s).sessions ↔ s' ≠ s ∧ s' ∈ r.sessions := by
  have hopen : s < r.registered ∧ s ∉ r.closed := ⟨h.known s hs, fun hc => (h.closed s hc).1 hs⟩
  rw [TunRouter.close, if_pos hopen, List.mem_filter, decide_eq_true_eq, and_comm]

theorem Routes.move (hst : Routes st) {i : ℕ} {c c' : Conn P S.keys} (hc : st.conns[i]? = some c)
    (h : Moves P S st.shared c.progress st'.shared c'.progress)
    (hconns : st'.conns = st.conns.set i c') : Routes st' := by
  obtain ⟨hrouter, hroute⟩ | ⟨hnone, hroute, hrouter⟩ | ⟨r, hsome, hnone, hrouter⟩ := h.router
  · refine ⟨hrouter ▸ hst.inv, ?_⟩
    rw [hconns, hrouter, filterMap_set_same hc hroute]
    exact hst.accounted
  · refine ⟨hrouter ▸ hst.inv.registerSession, ?_⟩
    rw [hconns, hrouter]
    refine hst.accounted.take (perm_filterMap_set_take hc hnone hroute) (fun hmem => ?_)
      fun s => List.mem_cons
    exact absurd (hst.inv.known _ hmem) (lt_irrefl _)
  · have hr := (hst.accounted.mem_iff r).mp
      (List.mem_filterMap.mpr ⟨c, List.mem_of_getElem? hc, hsome⟩)
    refine ⟨hrouter ▸ hst.inv.close r, ?_⟩
    rw [hconns, hrouter]
    exact hst.accounted.drop (perm_filterMap_set_drop hc hsome hnone) (mem_close_iff hst.inv hr)

theorem Routes.step (hst : Routes st) (h : st.step P S e = some st') : Routes st' := by
  cases e with
  | accept ip input =>
    cases h
    refine ⟨hst.inv, ?_⟩
    rw [List.filterMap_append]
    simpa [Progress.route] using hst.accounted
  | turn i d =>
    obtain ⟨c, c', hc, hmoves, hconns⟩ := moves_of_step h
    exact hst.move hc hmoves hconns
  | learn route packet =>
    cases h
    refine ⟨hst.inv.learn route packet, hst.accounted.congr fun s => ?_⟩
    rw [(sessions_learn st.shared.router route packet).1]
  | wait | datagram =>
    cases h
    exact ⟨hst.inv, hst.accounted⟩

/-! ### All of it -/

structure HandlersInv (r₀ : Option RevocationStore) (st : Handlers P S.keys) : Prop where
  balanced : st.slots.Balanced
  bounded : st.slots.Bounded S.limiter
  store : StoreKept r₀ st
  spaced : Spaced st
  sessions : Sessions st
  routes : Routes st

theorem HandlersInv.step {r₀ : Option RevocationStore} (hst : HandlersInv r₀ st)
    (h : st.step P S e = some st') : HandlersInv r₀ st' := by
  have hslots : st'.slots.Balanced ∧ st'.slots.Bounded S.limiter := by
    rcases slots_step h with hsame | ⟨e', hstep⟩
    · rw [hsame]
      exact ⟨hst.balanced, hst.bounded⟩
    · rw [hstep]
      exact ⟨hst.balanced.step S.limiter e', hst.bounded.step e'⟩
  exact ⟨hslots.1, hslots.2, hst.store.step h, hst.spaced.step h, hst.sessions.step h,
    hst.routes.step h⟩

theorem HandlersInv.start (ratePerSecond burst : ℤ) (now : ℕ) (r₀ : Option RevocationStore) :
    HandlersInv r₀ (.start P ratePerSecond burst now r₀ : Handlers P S.keys) where
  balanced := ⟨rfl, by simp [Handlers.slots, Handlers.start]⟩
  bounded := ⟨le_max_left _ _, by simp [Handlers.slots, Handlers.start]⟩
  store := ⟨⟨[], rfl⟩, by simp [Handlers.start]⟩
  spaced := ⟨rfl, by simp [Handlers.start], by simp [Handlers.start],
    fun i j x y _ hx => by simp [Handlers.start] at hx⟩
  sessions := ⟨⟨List.nodup_nil, by simp [Handlers.start, newUDPMux, UDPMux.Open]⟩,
    by simp [Handlers.start], by simp [Handlers.start, newUDPMux]⟩
  routes := ⟨inv_new, ⟨List.nodup_nil, by simp [Handlers.start, newTunRouter]⟩⟩

end Invariants

/-! ## Whole runs -/

section Sound

variable {P : Primitives} {S : ServerSetup}

section Admission

variable {p : Progress P S.keys} {a : Admitted P S.keys} (h : p.admission = some a)
include h

end Admission

variable {st : Handlers P S.keys}

/-- An open session has one handler. -/
theorem Sessions.owner (hst : Sessions st) {s : ℕ} {x : UDPSession} (hx : st.shared.mux.Open s x) :
    ∃! i : ℕ, ∃ (c : Conn P S.keys) (a : Admitted P S.keys) (keys : SessionKeys Bytes),
      st.conns[i]? = some c ∧ c.progress.session = some s ∧ c.progress.admission = some a ∧
      a.hs.sessionKeys = some keys ∧ x = newUDPSession (deriveUDPKeys P keys false) := by
  obtain ⟨c, hc, hs⟩ := List.mem_filterMap.mp ((hst.accounted.mem_iff s).mpr ⟨x, hx⟩)
  obtain ⟨i, hi⟩ := List.getElem?_of_mem hc
  obtain ⟨a, keys, ha, hkeys, hopen⟩ := hst.keyed c hc s hs
  have hxs := Option.some.inj (hx.1.symm.trans hopen.1)
  refine ⟨i, ⟨c, a, keys, hi, hs, ha, hkeys, hxs⟩, ?_⟩
  rintro j ⟨c', -, -, hj, hs', -⟩
  exact hst.accounted.unique hj hi hs' hs

/-- A route has one handler, which has admitted its client. -/
theorem Routes.owner (hst : Routes st) {r : ℕ} (hr : r ∈ st.shared.router.sessions) :
    ∃! i : ℕ, ∃ c : Conn P S.keys, st.conns[i]? = some c ∧ c.progress.route = some r ∧
      c.progress.admission.isSome = true := by
  obtain ⟨c, hc, hroute⟩ := List.mem_filterMap.mp ((hst.accounted.mem_iff r).mpr hr)
  obtain ⟨i, hi⟩ := List.getElem?_of_mem hc
  have hadmission : c.progress.admission.isSome = true := by
    cases hp : c.progress <;> rw [hp] at hroute <;> first | rfl | exact nomatch hroute
  refine ⟨i, ⟨c, hi, hroute, hadmission⟩, ?_⟩
  rintro j ⟨c', hj, hroute', -⟩
  exact hst.accounted.unique hj hi hroute' hroute

theorem Progress.Finished.holds_nothing {p : Progress P S.keys} (hp : p.Finished) :
    p.session = none ∧ p.route = none ∧ p.slot.held = 0 := by
  cases p <;> first | exact ⟨rfl, rfl, rfl⟩ | exact hp.elim

/-- Handlers that have returned leave nothing behind. -/
theorem HandlersInv.quiet {r₀ : Option RevocationStore} (hst : HandlersInv r₀ st)
    (hall : ∀ c ∈ st.conns, c.progress.Finished) : st.shared.active = 0 ∧
      (∀ s x, ¬st.shared.mux.Open s x) ∧ (∀ t, st.shared.mux.table.get t = none) ∧
      st.shared.router.sessions = [] ∧ ∀ a, st.shared.router.byIP a = none := by
  have hopen : ∀ s x, ¬st.shared.mux.Open s x := fun s x hx =>
    hst.sessions.accounted.none (fun c hc => (hall c hc).holds_nothing.1) s ⟨x, hx⟩
  have hroute := hst.routes.accounted.none fun c hc => (hall c hc).holds_nothing.2.1
  refine ⟨?_, hopen, fun t => ?_, List.eq_nil_iff_forall_not_mem.mpr hroute, fun a => ?_⟩
  · have hsum : (st.slots.handlers.map Handler.held).sum = 0 := by
      refine List.sum_eq_zero fun n hn => ?_
      simp only [Handlers.slots, List.map_map, List.mem_map, Function.comp_apply] at hn
      obtain ⟨c, hc, rfl⟩ := hn
      exact (hall c hc).holds_nothing.2.2
    show st.slots.active = 0
    rw [hst.balanced.active_eq, hsum]
    rfl
  · refine Option.eq_none_iff_forall_ne_some.mpr fun s hs => ?_
    obtain ⟨x, hx, -⟩ := hst.sessions.table t s hs
    exact hopen s x hx
  · refine Option.eq_none_iff_forall_ne_some.mpr fun s hs => ?_
    exact hroute s (hst.routes.inv.active a s hs)

end Sound

end ObsidianVPN.Server
