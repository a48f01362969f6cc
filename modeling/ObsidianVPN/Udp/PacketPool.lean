import ObsidianVPN.Lib.Pool
import ObsidianVPN.Udp.Delivery

/-!
# The packets of the multiplexer in pooled buffers

`runOnConn` decrypts each datagram into a buffer of `pktPool`. A slice of that buffer waits in the
queue of the session and in the batch of `RecvBatch`; `udpClientToTUN` reads it when its turn comes
and gives the buffer back. Meanwhile other rounds take buffers from the pool and write to them.

* `getPkt`, `putPacket`, `unframeSlice`: the pool, with buffers that come back shorter;
* `PooledNet`, `PooledNet.step`: `Net` with slices in the place of payloads;
* `PooledNet.abs`: the payloads that the slices hold now;
* `PooledNet.Inv`, **`PooledNet.simulated`**: no two places share a buffer, and every step is, through
  `abs`, a step of `Net`;
* **`handled_at_most_once`**: what `udpClientToTUN` reads was sent, each packet at most once.
-/

namespace ObsidianVPN.Udp

open ByteStr Pool Machine

/-! ## The pool -/

/-- The size of the buffers that `pktPool` makes. -/
def pktSize : ℕ := 2048

/-- `getPkt`; `choice` is what `pktPool.Get` does. -/
def getPkt (h : Heap UInt8) (choice : Option ℕ) (size : ℕ) : Option (Slice × Heap UInt8) :=
  (h.get (List.replicate pktSize 0) choice).map fun (p, h) =>
    if h.cap p ≥ size then ({ p with len := size }, h)
    else (h.put p).make (List.replicate size 0)

def putPacket (h : Heap UInt8) (b : Slice) : Heap UInt8 :=
  if h.cap b ≥ 1500 ∧ h.cap b ≤ 4096 then h.put { b with len := 0 } else h

/-- The part of the plaintext that is the payload. -/
def unframeSlice (h : Heap UInt8) (useBucketPadding : Bool) (plain : Slice) : Slice :=
  if useBucketPadding ∧ plain.len ≥ 2 then
    let origLen := getBE (h.read { plain with len := 2 })
    if origLen > 0 ∧ origLen ≤ plain.len - 2 then ⟨plain.buf, plain.off + 2, origLen⟩ else plain
  else plain

section Pool

variable {h h' : Heap UInt8} {held : List ℕ} {s : Slice}

/-- **`getPkt` hands out a buffer of its own.** -/
theorem owned_getPkt (ho : Owned h held) {choice : Option ℕ} {size : ℕ}
    (hget : getPkt h choice size = some (s, h')) :
    Owned h' (s.buf :: held) ∧ s.off ≤ (h'.mem s.buf).length ∧ ∀ b ∈ held, h'.mem b = h.mem b := by
  obtain ⟨⟨p, h₁⟩, hp, heq⟩ := Option.map_eq_some_iff.mp hget
  obtain ⟨hown, hfits, hsame⟩ := ho.get hp
  dsimp only at heq
  split_ifs at heq with hcap
  · obtain ⟨rfl, rfl⟩ := Prod.mk.inj heq
    exact ⟨hown, hfits, hsame⟩
  · -- a buffer that is too small goes back
    obtain ⟨rfl, rfl⟩ := Prod.mk.inj heq
    have hput := hown.put hfits
    exact ⟨hput.make _, Nat.zero_le _, fun b hb => (hput.mem_make _ hb).trans (hsame b hb)⟩

theorem owned_putPacket (ho : Owned h (s.buf :: held)) (hs : s.off ≤ (h.mem s.buf).length) :
    Owned (putPacket h s) held := by
  unfold putPacket
  split_ifs
  · exact Owned.put (s := { s with len := 0 }) ho hs
  · exact ho.release

/-- A buffer is written to and given back. -/
theorem owned_write_putPacket (ho : Owned h (s.buf :: held)) (hs : s.off ≤ (h.mem s.buf).length)
    (data : Bytes) : Owned (putPacket (h.write s data) s) held := by
  refine owned_putPacket (ho.write List.mem_cons_self data) ?_
  rw [mem_write_self]
  exact (Nat.le_add_right _ _).trans (length_overwritten h hs data)

@[simp] theorem mem_putPacket (h : Heap UInt8) (s : Slice) : (putPacket h s).mem = h.mem := by
  unfold putPacket
  split_ifs <;> rfl

@[simp] theorem read_putPacket (h : Heap UInt8) (s : Slice) : (putPacket h s).read = h.read := by
  funext t
  simp [Heap.read]

theorem unframeSlice_buf (h : Heap UInt8) (pad : Bool) (plain : Slice) :
    (unframeSlice h pad plain).buf = plain.buf := by
  unfold unframeSlice
  split_ifs <;> try rfl
  dsimp only
  split_ifs <;> rfl

theorem unframeSlice_off (hs : s.off + s.len ≤ (h.mem s.buf).length) (pad : Bool) :
    (unframeSlice h pad s).off ≤ (h.mem s.buf).length := by
  unfold unframeSlice
  split_ifs with hpad
  · dsimp only
    split_ifs
    · show s.off + 2 ≤ _
      omega
    · omega
  · omega

/-- The slice holds the payload of the plaintext. -/
theorem read_unframeSlice {data : Bytes} (hlen : s.len = data.length)
    (hread : ∀ off len, off + len ≤ data.length →
      h.read ⟨s.buf, s.off + off, len⟩ = (data.drop off).take len) (pad : Bool) :
    h.read (unframeSlice h pad s) = unframe pad data := by
  have hall : h.read s = data := by
    have := hread 0 data.length (by omega)
    rw [List.drop_zero, List.take_length, ← hlen] at this
    exact this
  unfold unframeSlice unframe
  rw [hlen]
  split_ifs with hpad
  · have htwo : h.read { s with len := 2 } = data.take 2 := hread 0 2 (by omega)
    rw [htwo]
    dsimp only
    split_ifs with horig
    · exact hread 2 _ (by omega)
    · exact hall
  · exact hall

end Pool

/-! ## The multiplexer -/

/-- A round of `runOnConn` before its last `select`. -/
structure PooledRound where
  conn : ℕ
  session : ℕ
  plain : Slice
  actual : Slice

/-- Where `udpClientToTUN` stands. -/
inductive PooledReader where
  | idle
  /-- In the loop of `RecvBatch`. -/
  | batch (ps : List Slice)
  /-- With the packets of a batch that it has still to handle. -/
  | handling (ps : List Slice)
  | ended

def PooledReader.slices : PooledReader → List Slice
  | .batch ps | .handling ps => ps
  | _ => []

/-- The packets of a batch that are still to be handled. -/
def PooledReader.unhandled : PooledReader → List Slice
  | .handling ps => ps
  | _ => []

/-- The reader as `Net` sees it: a batch that has been returned is gone. -/
def PooledReader.abs (h : Heap UInt8) : PooledReader → Reader
  | .batch ps => .batch (ps.map h.read)
  | .ended => .ended
  | _ => .idle

/-- The reader with the packets `rest` still to handle. -/
def PooledReader.after (rest : List Slice) : PooledReader :=
  if rest = [] then .idle else .handling rest

theorem slices_after (rest : List Slice) : (PooledReader.after rest).slices = rest := by
  cases rest <;> rfl

theorem unhandled_after (rest : List Slice) : (PooledReader.after rest).unhandled = rest := by
  cases rest <;> rfl

theorem abs_after (h : Heap UInt8) (rest : List Slice) : (PooledReader.after rest).abs h = .idle := by
  cases rest <;> rfl

/-- `Net` with its packets in buffers. `sent`, `accepted` and `put` record what has happened;
`handled` is what `udpClientToTUN` has read from the packets it has handled. -/
structure PooledNet where
  clients : ℕ → UDPChannel
  srv : UDPServer
  heap : Heap UInt8
  rounds : List PooledRound
  queue : ℕ → List Slice
  reader : ℕ → PooledReader
  sent : ℕ → List SentPacket
  accepted : ℕ → List (ℕ × Bytes)
  put : ℕ → List Bytes
  handled : ℕ → List Bytes

inductive PooledEvent where
  | register (keys : UDPKeys) (cfg : UDPSettings)
  | close (i : ℕ)
  | send (i : ℕ) (payload : Bytes) (poolCap : ℕ) (r : SendDraws)
  /-- With the choice of the pool, and what a failed `Open` leaves in the buffer. -/
  | arrive (a : Arrival) (choice : Option ℕ) (junk : Bytes)
  | enqueue (k : ℕ)
  | recv (i : ℕ) (choice : RecvChoice)
  /-- `udpClientToTUN` handles a packet and gives its buffer back. -/
  | handle (i : ℕ)
  /-- The garbage collector empties a part of the pool. -/
  | forget (k : ℕ)

/-- What a round leaves behind before its last `select`. -/
def Net.afterRound (net : Net) (conn ctr : ℕ) : Outcome → Net
  | .ignored | .replayed _ => net
  | .echoed i _ => net.accept i (ctr, [])
  | .offered i payload =>
    accept { net with rounds := net.rounds ++ [⟨conn, i, payload⟩] } i (ctr, payload)

theorem Net.arrive_eq {U : UDPCiphers} {net : Net} {a : Arrival} {o : Outcome} {srv : UDPServer}
    (hfree : ¬(net.rounds.any fun r => decide (r.conn = a.conn)) = true)
    (hrec : net.srv.receive U a = some (o, srv)) : net.arrive U a =
      some (afterRound { net with srv := srv } a.conn
        (((net.srv.mux.identity U a.datagram).map Prod.snd).getD 0) o) := by
  unfold Net.arrive
  rw [if_neg hfree, hrec]
  cases o <;> rfl

namespace PooledNet

section Steps

variable (U : UDPCiphers) (p : PooledNet)

def accept (i : ℕ) (x : ℕ × Bytes) : PooledNet :=
  { p with accepted := Function.update p.accepted i (x :: p.accepted i) }

/-- What becomes of a plaintext in the buffer. -/
def opened (conn ctr : ℕ) (plain : Slice) : Outcome → PooledNet
  | .offered i payload =>
    let actual := unframeSlice p.heap (p.srv.states i).settings.useBucketPadding plain
    accept { p with rounds := p.rounds ++ [⟨conn, i, plain, actual⟩] } i (ctr, payload)
  | .echoed i _ => accept { p with heap := putPacket p.heap plain } i (ctr, [])
  | _ => { p with heap := putPacket p.heap plain }

/-- A round from `getPkt` on, for a session with the keys `dec` and `hp`. -/
def decrypt (conn : ℕ) (o : Outcome) (packet dec hp : Bytes) (choice : Option ℕ) (junk : Bytes) :
    Option PooledNet :=
  (getPkt p.heap choice (packet.length - udpHeaderSize)).map fun (pkt, heap) =>
    match openPacket U dec hp packet with
    | none => { p with heap := putPacket (heap.write pkt (junk.take (heap.cap pkt))) pkt }
    | some (ctr, data) =>
      opened { p with heap := (heap.store pkt data).2 } conn ctr (heap.store pkt data).1 o

/-- A round up to its last `select`. -/
def arrive (a : Arrival) (choice : Option ℕ) (junk : Bytes) : Option PooledNet :=
  if p.rounds.any fun r => decide (r.conn = a.conn) then none
  else
    (p.srv.receive U a).bind fun (o, srv) =>
      match p.srv.mux.pick a.datagram with
      | none => some { p with srv := srv }
      | some (packet, _, _, dec, hp) =>
        decrypt U { p with srv := srv } a.conn o packet dec hp choice junk

/-- The last `select` of the `k`-th round; a full queue sends the buffer back. -/
def enqueue (k : ℕ) : Option PooledNet :=
  p.rounds[k]?.map fun r =>
    let p := { p with
      rounds := p.rounds.eraseIdx k
      put := Function.update p.put r.session (p.put r.session ++ [p.heap.read r.actual]) }
    if (p.queue r.session).length < udpSessionQueueSize then
      { p with queue := Function.update p.queue r.session (p.queue r.session ++ [r.actual]) }
    else { p with heap := putPacket p.heap r.plain }

def setReader (i : ℕ) (r : PooledReader) : PooledNet :=
  { p with reader := Function.update p.reader i r }

/-- A packet is taken out of the queue, after those in `ps`. -/
def take (i : ℕ) (ps : List Slice) : Option PooledNet :=
  match p.queue i with
  | [] => none
  | s :: rest =>
    some (setReader { p with queue := Function.update p.queue i rest } i (.batch (ps ++ [s])))

/-- A `select` of `RecvBatch`; what it returns is handled packet by packet. -/
def recv (i : ℕ) (choice : RecvChoice) : Option PooledNet :=
  match p.reader i with
  | .ended | .handling _ => none
  | .idle =>
    match choice with
    | .data => p.take i []
    | .done => if p.srv.closed i then some (p.setReader i .ended) else none
    | .default => none
  | .batch ps =>
    if ps.length < recvBatchSize then
      match choice with
      | .data => p.take i ps
      | .done => if p.srv.closed i then some (p.setReader i (.handling ps)) else none
      | .default =>
        if p.queue i = [] ∧ ¬p.srv.closed i then some (p.setReader i (.handling ps)) else none
    else some (p.setReader i (.handling ps))

def handle (i : ℕ) : Option PooledNet :=
  match p.reader i with
  | .handling (s :: rest) =>
    some (setReader { p with
      handled := Function.update p.handled i (p.handled i ++ [p.heap.read s])
      heap := putPacket p.heap s } i (.after rest))
  | _ => none

def step : PooledEvent → Option PooledNet
  | .register keys cfg => some { p with srv := p.srv.registerSession keys cfg }
  | .close i => some { p with srv := { p.srv with mux := p.srv.mux.close i } }
  | .send i payload poolCap r => some { p with
      clients := Function.update p.clients i ((p.clients i).send U payload poolCap r).2
      sent := Function.update p.sent i (p.sent i ++ Net.sending U (p.clients i) payload poolCap r) }
  | .arrive a choice junk => p.arrive U a choice junk
  | .enqueue k => p.enqueue k
  | .recv i choice => p.recv i choice
  | .handle i => p.handle i
  | .forget k => some { p with heap := p.heap.forget k }

end Steps

/-- The start, with an empty pool. -/
def start (clients : ℕ → UDPChannel) (srv : UDPServer) : PooledNet where
  clients := clients
  srv := srv
  heap := ⟨fun _ => [], [], 0⟩
  rounds := []
  queue _ := []
  reader _ := .idle
  sent _ := []
  accepted _ := []
  put _ := []
  handled _ := []

/-! ## The payloads in the buffers -/

variable (p : PooledNet)

/-- The state of `Net`, with what the slices hold now. -/
def abs : Net where
  clients := p.clients
  srv := p.srv
  rounds := p.rounds.map fun r => ⟨r.conn, r.session, p.heap.read r.actual⟩
  queue i := (p.queue i).map p.heap.read
  reader i := (p.reader i).abs p.heap
  sent := p.sent
  accepted := p.accepted
  put := p.put
  got i := p.handled i ++ (p.reader i).unhandled.map p.heap.read

/-- What an event is for `Net`. -/
def erase : PooledEvent → Option NetEvent
  | .register keys cfg => some (.register keys cfg)
  | .close i => some (.close i)
  | .send i payload poolCap r => some (.send i payload poolCap r)
  | .arrive a _ _ => some (.arrive a)
  | .enqueue k => some (.enqueue k)
  | .recv i choice => some (.recv i choice)
  | .handle _ | .forget _ => none

/-- The slices of a session. -/
def slicesOf (i : ℕ) : List Slice := p.queue i ++ (p.reader i).slices

/-- The buffers that are in use. -/
def held : List ℕ :=
  p.rounds.map (fun r => r.plain.buf) ++
    (List.range p.srv.mux.sessions.length).flatMap fun i => (p.slicesOf i).map Slice.buf

/-- **No two places share a buffer.** -/
structure Inv : Prop where
  owned : Owned p.heap p.held
  unused : ∀ i, p.srv.mux.sessions.length ≤ i → p.slicesOf i = []
  rounds : ∀ r ∈ p.rounds, r.session < p.srv.mux.sessions.length ∧ r.actual.buf = r.plain.buf ∧
    r.plain.off ≤ (p.heap.mem r.plain.buf).length ∧
    r.actual.off ≤ (p.heap.mem r.plain.buf).length
  fits : ∀ i, ∀ s ∈ p.slicesOf i, s.off ≤ (p.heap.mem s.buf).length

theorem inv_start (clients : ℕ → UDPChannel) (srv : UDPServer) : (start clients srv).Inv where
  owned := by
    have hheld : (start clients srv).held = [] := by
      simp [held, start, slicesOf, PooledReader.slices]
    rw [hheld]
    exact owned_empty
  unused _ _ := rfl
  rounds := nofun
  fits _ := nofun

variable {U : UDPCiphers} {p}

/-! ## Buffers that nobody writes to -/

theorem lt_of_slice (h : p.Inv) {i : ℕ} {s : Slice} (hs : s ∈ p.slicesOf i) :
    i < p.srv.mux.sessions.length := by
  by_contra hge
  rw [h.unused i (not_lt.mp hge)] at hs
  cases hs

theorem mem_held_of_slice (h : p.Inv) {i : ℕ} {s : Slice} (hs : s ∈ p.slicesOf i) :
    s.buf ∈ p.held := by
  refine List.mem_append_right _ (List.mem_flatMap.mpr ⟨i, ?_, List.mem_map_of_mem hs⟩)
  exact List.mem_range.mpr (lt_of_slice h hs)

theorem mem_held_of_round {r : PooledRound} (hr : r ∈ p.rounds) : r.plain.buf ∈ p.held :=
  List.mem_append_left _ (List.mem_map_of_mem hr)

section Frame

variable {heap : Heap UInt8} (hsame : ∀ b ∈ p.held, heap.mem b = p.heap.mem b)

include hsame

theorem map_read_eq (h : p.Inv) {i : ℕ} {ps : List Slice} (hps : ps ⊆ p.slicesOf i) :
    ps.map heap.read = ps.map p.heap.read :=
  List.map_congr_left fun s hs => read_congr (hsame s.buf (mem_held_of_slice h (hps hs)))

theorem map_rounds_eq (h : p.Inv) :
    (p.rounds.map fun r => (⟨r.conn, r.session, heap.read r.actual⟩ : Round)) =
      p.rounds.map fun r => ⟨r.conn, r.session, p.heap.read r.actual⟩ := by
  refine List.map_congr_left fun r hr => ?_
  have hbuf : r.actual.buf ∈ p.held := (h.rounds r hr).2.1 ▸ mem_held_of_round hr
  rw [read_congr (hsame _ hbuf)]

/-- **A change of other buffers is not seen.** -/
theorem abs_heap (h : p.Inv) : abs { p with heap := heap } = p.abs := by
  refine Net.ext rfl rfl (map_rounds_eq hsame h) ?_ ?_ rfl rfl rfl ?_
  · funext i
    exact map_read_eq hsame h (List.subset_append_left _ _)
  · funext i
    have hslices : (p.reader i).slices ⊆ p.slicesOf i := List.subset_append_right _ _
    show (p.reader i).abs heap = (p.reader i).abs p.heap
    cases hr : p.reader i with
    | batch ps =>
      rw [hr] at hslices
      exact congrArg Reader.batch (map_read_eq hsame h hslices)
    | _ => rfl
  · funext i
    have hslices : (p.reader i).slices ⊆ p.slicesOf i := List.subset_append_right _ _
    show p.handled i ++ (p.reader i).unhandled.map heap.read =
      p.handled i ++ (p.reader i).unhandled.map p.heap.read
    cases hr : p.reader i with
    | handling ps =>
      rw [hr] at hslices
      exact congrArg (p.handled i ++ ·) (map_read_eq hsame h hslices)
    | _ => rfl

theorem inv_heap (h : p.Inv) (howned : Owned heap p.held) : Inv { p with heap := heap } where
  owned := howned
  unused := h.unused
  rounds r hr := by
    obtain ⟨hlt, hbuf, hplain, hactual⟩ := h.rounds r hr
    have heq : heap.mem r.plain.buf = p.heap.mem r.plain.buf := hsame _ (mem_held_of_round hr)
    exact ⟨hlt, hbuf, by rw [heq]; exact hplain, by rw [heq]; exact hactual⟩
  fits i s hs := by
    have heq : heap.mem s.buf = p.heap.mem s.buf := hsame _ (mem_held_of_slice h hs)
    rw [heq]
    exact h.fits i s hs

end Frame

/-! ## The steps -/

variable {p' : PooledNet} {i : ℕ}

/-- The server goes on with the same number of sessions. -/
theorem inv_srv (h : p.Inv) {srv : UDPServer}
    (hlen : srv.mux.sessions.length = p.srv.mux.sessions.length) : Inv { p with srv := srv } where
  owned := by
    have hheld : held { p with srv := srv } = p.held := by simp only [held, slicesOf, hlen]
    rw [hheld]
    exact h.owned
  unused i hi := h.unused i (hlen ▸ hi)
  rounds r hr := by
    obtain ⟨hlt, hrest⟩ := h.rounds r hr
    exact ⟨hlen.symm ▸ hlt, hrest⟩
  fits := h.fits

theorem inv_register (h : p.Inv) (keys : UDPKeys) (cfg : UDPSettings) :
    Inv { p with srv := p.srv.registerSession keys cfg } := by
  have hlen : (p.srv.registerSession keys cfg).mux.sessions.length =
      p.srv.mux.sessions.length + 1 := by
    simp [UDPServer.registerSession, UDPMux.registerSession]
  refine ⟨?_, fun i hi => ?_, fun r hr => ?_, h.fits⟩
  · -- the new session holds nothing
    have hheld : held { p with srv := p.srv.registerSession keys cfg } = p.held := by
      have hnone := h.unused _ le_rfl
      simp only [slicesOf] at hnone
      simp [held, slicesOf, hlen, List.range_succ, List.append_eq_nil_iff.mp hnone]
    rw [hheld]
    exact h.owned
  · have hi : (p.srv.registerSession keys cfg).mux.sessions.length ≤ i := hi
    exact h.unused i (by omega)
  · obtain ⟨hlt, hrest⟩ := h.rounds r hr
    exact ⟨by show r.session < _; rw [hlen]; omega, hrest⟩

theorem inv_forget (h : p.Inv) (k : ℕ) : Inv { p with heap := p.heap.forget k } :=
  inv_heap (fun _ _ => rfl) h (h.owned.forget k)

/-- Slices change hands, and no buffer is written to. -/
theorem inv_of_owned (h : p.Inv) (hsrv : p'.srv = p.srv) (hmem : p'.heap.mem = p.heap.mem)
    (howned : Owned p'.heap p'.held) (hrounds : p'.rounds ⊆ p.rounds)
    (hslices : ∀ i, ∀ s ∈ p'.slicesOf i,
      s ∈ p.slicesOf i ∨ ∃ r ∈ p.rounds, r.session = i ∧ r.actual = s) : p'.Inv where
  owned := howned
  unused i hi := by
    refine List.eq_nil_iff_forall_not_mem.mpr fun s hs => ?_
    rw [hsrv] at hi
    obtain hs | ⟨r, hr, rfl, -⟩ := hslices i s hs
    · rw [h.unused i hi] at hs
      cases hs
    · exact absurd (h.rounds r hr).1 (not_lt.mpr hi)
  rounds r hr := by
    rw [hsrv, hmem]
    exact h.rounds r (hrounds hr)
  fits i s hs := by
    rw [hmem]
    obtain hs | ⟨r, hr, -, rfl⟩ := hslices i s hs
    · exact h.fits i s hs
    · obtain ⟨-, hbuf, -, hoff⟩ := h.rounds r hr
      rw [hbuf]
      exact hoff

/-- Within a session the slices may change hands in any way. -/
theorem inv_perm (h : p.Inv) (hsrv : p'.srv = p.srv) (hheap : p'.heap = p.heap)
    (hrounds : p'.rounds = p.rounds) (hperm : ∀ i, (p.slicesOf i).Perm (p'.slicesOf i)) :
    p'.Inv := by
  have hheld : p.held.Perm p'.held := by
    unfold held
    rw [hrounds, hsrv]
    exact (List.Perm.flatMap_left _ fun i _ => (hperm i).map _).append_left _
  refine inv_of_owned h hsrv (congrArg _ hheap) ?_ (hrounds ▸ List.Subset.refl _) fun i s hs => ?_
  · rw [hheap]
    exact h.owned.perm hheld
  · exact .inl ((hperm i).mem_iff.mpr hs)

theorem inv_enqueue (h : p.Inv) {k : ℕ} (hstep : p.enqueue k = some p') : p'.Inv := by
  obtain ⟨r, hr, rfl⟩ := Option.map_eq_some_iff.mp hstep
  obtain ⟨hk, rfl⟩ := List.getElem?_eq_some_iff.mp hr
  obtain ⟨hsess, hbuf, hplain, -⟩ := h.rounds _ (List.getElem_mem hk)
  have hrounds : (p.rounds.map fun r => r.plain.buf).Perm
      (p.rounds[k].plain.buf :: (p.rounds.eraseIdx k).map fun r => r.plain.buf) :=
    ((List.getElem_cons_eraseIdx_perm hk).map _).symm
  have hsub : p.rounds.eraseIdx k ⊆ p.rounds := List.eraseIdx_subset
  dsimp only
  split_ifs with hroom
  · refine inv_of_owned h rfl rfl (h.owned.perm ?_) hsub fun i s hs => ?_
    · -- the buffer goes from the round to the queue
      refine perm_flatMap_update hsess (fun j hj => ?_) ?_
      · simp only [slicesOf, Function.update_of_ne hj]
      · simp only [slicesOf, Function.update_self, List.map_append, List.map_cons, List.map_nil, hbuf]
        refine (hrounds.append_right _).trans ?_
        simp only [List.append_assoc, List.cons_append, List.nil_append]
        rw [← List.append_assoc, ← List.append_assoc]
        exact List.perm_middle.symm
    · rcases eq_or_ne i p.rounds[k].session with rfl | hne
      · simp only [slicesOf, Function.update_self, List.mem_append, List.mem_singleton] at hs ⊢
        rcases hs with (hs | rfl) | hs
        · exact .inl (.inl hs)
        · exact .inr ⟨_, List.getElem_mem hk, rfl, rfl⟩
        · exact .inl (.inr hs)
      · simp only [slicesOf, Function.update_of_ne hne] at hs
        exact .inl hs
  · have hheld : p.held.Perm (p.rounds[k].plain.buf :: held { p with
        rounds := p.rounds.eraseIdx k
        heap := putPacket p.heap p.rounds[k].plain }) := hrounds.append_right _
    exact inv_of_owned h rfl (mem_putPacket _ _) (owned_putPacket (h.owned.perm hheld) hplain) hsub
      fun i s hs => .inl hs

/-- Giving a buffer back changes no contents. -/
theorem abs_putPacket (p : PooledNet) (s : Slice) :
    abs { p with heap := putPacket p.heap s } = p.abs := by
  have hreader : ∀ r : PooledReader, r.abs (putPacket p.heap s) = r.abs p.heap := by
    intro r
    cases r <;> simp [PooledReader.abs]
  simp only [abs, read_putPacket, hreader]

/-- A plaintext in a buffer of its own. -/
theorem inv_opened (h : p.Inv) {plain : Slice} (ho : Owned p.heap (plain.buf :: p.held))
    (hfit : plain.off + plain.len ≤ (p.heap.mem plain.buf).length) {o : Outcome}
    (hreg : ∀ i payload, o = .offered i payload → i < p.srv.mux.sessions.length) (conn ctr : ℕ) :
    (p.opened conn ctr plain o).Inv := by
  have hput : Inv { p with heap := putPacket p.heap plain } :=
    inv_heap (fun _ _ => congrFun (mem_putPacket _ _) _) h (owned_putPacket ho (by omega))
  cases o with
  | ignored => exact hput
  | replayed i => exact hput
  | echoed i reply => exact ⟨hput.owned, hput.unused, hput.rounds, hput.fits⟩
  | offered i payload =>
    refine ⟨ho.perm ?_, h.unused, fun r hr => ?_, h.fits⟩
    · show (plain.buf :: p.held).Perm ((p.rounds ++ [_]).map _ ++ _)
      rw [List.map_append, List.append_assoc]
      exact List.perm_middle.symm
    · rcases List.mem_append.mp hr with hr | hr
      · exact h.rounds r hr
      · obtain rfl := List.mem_singleton.mp hr
        exact ⟨hreg i payload rfl, unframeSlice_buf _ _ _, (Nat.le_add_right _ _).trans hfit,
          unframeSlice_off hfit _⟩

theorem abs_opened (p : PooledNet) (conn ctr : ℕ) {plain : Slice} {o : Outcome}
    (hread : ∀ i payload, o = .offered i payload →
      p.heap.read (unframeSlice p.heap (p.srv.states i).settings.useBucketPadding plain) = payload) :
    (p.opened conn ctr plain o).abs = p.abs.afterRound conn ctr o := by
  cases o with
  | ignored => exact abs_putPacket p plain
  | replayed i => exact abs_putPacket p plain
  | echoed i reply => exact abs_putPacket (p.accept i (ctr, [])) plain
  | offered i payload =>
    obtain rfl := hread i payload rfl
    exact Net.ext rfl rfl List.map_append rfl rfl rfl rfl rfl rfl

section Decrypt

variable {conn : ℕ} {o : Outcome} {packet dec hp junk : Bytes} {choice : Option ℕ}

/-- What a failed `Open` leaves in its buffer is seen by nobody. -/
theorem decrypt_none (h : p.Inv) (hopen : openPacket U dec hp packet = none)
    (hstep : p.decrypt U conn o packet dec hp choice junk = some p') :
    p'.Inv ∧ p'.abs = p.abs := by
  obtain ⟨⟨pkt, heap⟩, hget, hround⟩ := Option.map_eq_some_iff.mp hstep
  obtain ⟨hown, hoff, hsame⟩ := owned_getPkt h.owned hget
  simp only [hopen] at hround
  subst hround
  have hframe : ∀ b ∈ p.held,
      (putPacket (heap.write pkt (junk.take (heap.cap pkt))) pkt).mem b = p.heap.mem b := by
    intro b hb
    rw [mem_putPacket, mem_write_of_ne heap (fun heq => hown.not_mem (heq ▸ hb))]
    exact hsame b hb
  exact ⟨inv_heap hframe h (owned_write_putPacket hown hoff _), abs_heap hframe h⟩

/-- **The plaintext stands in a buffer that nobody else uses.** -/
theorem decrypt_some (h : p.Inv) {ctr : ℕ} {data : Bytes}
    (hopen : openPacket U dec hp packet = some (ctr, data))
    (ho : ∀ i payload, o = .offered i payload → i < p.srv.mux.sessions.length ∧
      payload = unframe (p.srv.states i).settings.useBucketPadding data)
    (hstep : p.decrypt U conn o packet dec hp choice junk = some p') :
    p'.Inv ∧ p'.abs = p.abs.afterRound conn ctr o := by
  obtain ⟨⟨pkt, heap⟩, hget, hround⟩ := Option.map_eq_some_iff.mp hstep
  obtain ⟨hown, hoff, hsame⟩ := owned_getPkt h.owned hget
  obtain ⟨hown', hlen, hfit, hsame', hread⟩ := hown.store hoff (Prod.mk.eta (p := heap.store pkt data)).symm
  simp only [hopen] at hround
  subst hround
  have hframe : ∀ b ∈ p.held, (heap.store pkt data).2.mem b = p.heap.mem b := fun b hb =>
    (hsame' b hb).trans (hsame b hb)
  have hinv := inv_heap hframe h hown'.release
  refine ⟨inv_opened hinv hown' (hlen ▸ hfit) (fun i payload heq => (ho i payload heq).1) _ _, ?_⟩
  rw [abs_opened, abs_heap hframe h]
  intro i payload heq
  rw [(ho i payload heq).2]
  exact read_unframeSlice hlen hread _

end Decrypt

/-- A datagram that does not open is ignored. -/
theorem receive_ignored {srv srv' : UDPServer} {a : Arrival} {o : Outcome}
    (h : srv.receive U a = some (o, srv')) (hclosed : srv.mux.openDatagram U a.datagram = none) :
    o = .ignored := by
  unfold UDPServer.receive at h
  rw [hclosed] at h
  exact (Prod.mk.inj (Option.some.inj h)).1.symm

/-- A round offers the payload of the datagram to the session that it opens for. -/
theorem receive_offered {srv srv' : UDPServer} {a : Arrival} {j : ℕ} {payload : Bytes}
    (h : srv.receive U a = some (.offered j payload, srv')) {s : UDPSession} {ctr : ℕ} {data : Bytes}
    (hopen : srv.mux.openDatagram U a.datagram = some (i, s, ctr, data)) :
    j < srv'.mux.sessions.length ∧
      payload = unframe (srv'.states j).settings.useBucketPadding data := by
  obtain ⟨hsessions, ⟨ho | ⟨_, ho⟩, -⟩ | ⟨i', s', ctr', data', w, hopen', -, -, hset, -, ho⟩⟩ :=
    receive_spec h
  · cases ho
  · cases ho
  · have hlt := lt_of_openDatagram hopen'
    obtain ⟨rfl, rfl, rfl, rfl⟩ : i = i' ∧ s = s' ∧ ctr = ctr' ∧ data = data' := by
      simpa only [Option.some.injEq, Prod.mk.injEq] using hopen.symm.trans hopen'
    obtain ⟨_, ho, -⟩ | ⟨ho, -⟩ := ho
    · cases ho
    · obtain ⟨rfl, rfl⟩ := Outcome.offered.inj ho
      exact ⟨hsessions.symm ▸ hlt, by rw [hset]⟩

/-- **A round takes a buffer that nobody uses.** -/
theorem inv_arrive (h : p.Inv) {a : Arrival} {choice : Option ℕ} {junk : Bytes}
    (hstep : p.arrive U a choice junk = some p') :
    p'.Inv ∧ p.abs.arrive U a = some p'.abs := by
  unfold arrive at hstep
  split at hstep
  · cases hstep
  · rename_i hfree
    obtain ⟨⟨o, srv⟩, hrec, hround⟩ := Option.bind_eq_some_iff.mp hstep
    have hfree' : ¬(p.abs.rounds.any fun r => decide (r.conn = a.conn)) = true := by
      simpa [abs] using hfree
    have hsrv : Inv { p with srv := srv } := inv_srv h (congrArg _ (receive_spec hrec).1)
    rw [Net.arrive_eq hfree' hrec]
    cases hpick : p.srv.mux.pick a.datagram with
    | none =>
      have hclosed : p.srv.mux.openDatagram U a.datagram = none := by
        simp [UDPMux.openDatagram, hpick]
      simp only [hpick, Option.some.injEq] at hround
      subst hround
      obtain rfl := receive_ignored hrec hclosed
      exact ⟨hsrv, rfl⟩
    | some picked =>
      obtain ⟨packet, i, s, dec, hp⟩ := picked
      simp only [hpick] at hround
      cases hopen : openPacket U dec hp packet with
      | none =>
        have hclosed : p.srv.mux.openDatagram U a.datagram = none := by
          simp [UDPMux.openDatagram, hpick, hopen]
        obtain rfl := receive_ignored hrec hclosed
        obtain ⟨hinv, habs⟩ := decrypt_none hsrv hopen hround
        exact ⟨hinv, congrArg some habs.symm⟩
      | some opened =>
        obtain ⟨ctr, data⟩ := opened
        have hdatagram : p.srv.mux.openDatagram U a.datagram = some (i, s, ctr, data) := by
          simp [UDPMux.openDatagram, hpick, hopen]
        have hctr : ((p.abs.srv.mux.identity U a.datagram).map Prod.snd).getD 0 = ctr := by
          simp [UDPMux.identity, abs, hdatagram]
        obtain ⟨hinv, habs⟩ := decrypt_some hsrv hopen (fun j payload ho => by
          subst ho
          exact receive_offered hrec hdatagram) hround
        rw [hctr, habs]
        exact ⟨hinv, rfl⟩

theorem abs_enqueue {k : ℕ} (hstep : p.enqueue k = some p') :
    p.abs.enqueue k = some p'.abs := by
  obtain ⟨r, hr, rfl⟩ := Option.map_eq_some_iff.mp hstep
  have habs : p.abs.rounds[k]? = some ⟨r.conn, r.session, p.heap.read r.actual⟩ := by
    show (p.rounds.map _)[k]? = _
    rw [List.getElem?_map, hr, Option.map_some]
  have hlen : (p.abs.queue r.session).length = (p.queue r.session).length := List.length_map _
  unfold Net.enqueue
  rw [habs, Option.map_some]
  dsimp only
  unfold Net.offer
  rw [hlen]
  split_ifs with hroom
  · congr 1
    refine Net.ext rfl rfl (List.eraseIdx_map ..) ?_ rfl rfl rfl rfl rfl
    funext i
    show Function.update (fun i => (p.queue i).map p.heap.read) _ _ i =
      (Function.update p.queue _ _ i).map p.heap.read
    rw [Function.apply_update (fun _ q => List.map p.heap.read q), List.map_append]
    rfl
  · rw [abs_putPacket { p with
      rounds := p.rounds.eraseIdx k
      put := Function.update p.put r.session (p.put r.session ++ [p.heap.read r.actual]) }]
    congr 1
    exact Net.ext rfl rfl (List.eraseIdx_map ..) (Function.update_eq_self _ _) rfl rfl rfl rfl rfl

/-- Another state of the reader, with the same slices. -/
theorem inv_setReader (h : p.Inv) {i : ℕ} {r : PooledReader}
    (hr : r.slices = (p.reader i).slices) : (p.setReader i r).Inv := by
  refine inv_perm h rfl rfl rfl fun j => ?_
  rcases eq_or_ne j i with rfl | hne
  · simp only [slicesOf, setReader, Function.update_self, hr]
    exact .refl _
  · simp only [slicesOf, setReader, Function.update_of_ne hne]
    exact .refl _

theorem inv_take (h : p.Inv) {i : ℕ} {ps : List Slice} (hps : (p.reader i).slices = ps)
    (hstep : p.take i ps = some p') : p'.Inv := by
  unfold take at hstep
  cases hqueue : p.queue i with
  | nil => simp [hqueue] at hstep
  | cons s rest =>
    simp only [hqueue, Option.some.injEq] at hstep
    subst hstep
    refine inv_perm h rfl rfl rfl fun j => ?_
    rcases eq_or_ne j i with rfl | hne
    · simp only [slicesOf, setReader, Function.update_self, hqueue, hps]
      show (s :: rest ++ ps).Perm (rest ++ (ps ++ [s]))
      rw [← List.append_assoc, List.cons_append]
      exact (List.perm_append_singleton _ _).symm
    · simp only [slicesOf, setReader, Function.update_of_ne hne]
      exact .refl _

theorem inv_recv (h : p.Inv) {i : ℕ} {choice : RecvChoice} (hstep : p.recv i choice = some p') :
    p'.Inv := by
  unfold recv at hstep
  cases hreader : p.reader i with
  | ended => simp [hreader] at hstep
  | handling ps => simp [hreader] at hstep
  | idle =>
    simp only [hreader] at hstep
    cases choice with
    | data => exact inv_take h (by rw [hreader]; rfl) hstep
    | default => cases hstep
    | done =>
      simp only [Option.ite_none_right_eq_some, Option.some.injEq] at hstep
      exact hstep.2 ▸ inv_setReader h (by rw [hreader]; rfl)
  | batch ps =>
    have hreturn : (p.setReader i (.handling ps)).Inv := inv_setReader h (by rw [hreader]; rfl)
    simp only [hreader] at hstep
    split at hstep
    · cases choice with
      | data => exact inv_take h (by rw [hreader]; rfl) hstep
      | done =>
        simp only [Option.ite_none_right_eq_some, Option.some.injEq] at hstep
        exact hstep.2 ▸ hreturn
      | default =>
        simp only [Option.ite_none_right_eq_some, Option.some.injEq] at hstep
        exact hstep.2 ▸ hreturn
    · exact Option.some.inj hstep ▸ hreturn

/-- The reader as `Net` sees it, and what it still has to handle. -/
theorem abs_setReader (p : PooledNet) (i : ℕ) (r : PooledReader) : (p.setReader i r).abs =
    { p.abs with
      reader := Function.update p.abs.reader i (r.abs p.heap)
      got := Function.update p.abs.got i (p.handled i ++ r.unhandled.map p.heap.read) } := by
  refine Net.ext rfl rfl rfl rfl ?_ rfl rfl rfl ?_
  · funext j
    exact Function.apply_update (fun _ r => PooledReader.abs p.heap r) p.reader i r j
  · funext j
    exact Function.apply_update (fun j r => p.handled j ++ (PooledReader.unhandled r).map p.heap.read)
      p.reader i r j

theorem abs_setReader_of_eq {i : ℕ} {r : PooledReader}
    (hr : r.unhandled = (p.reader i).unhandled) : (p.setReader i r).abs =
      { p.abs with reader := Function.update p.abs.reader i (r.abs p.heap) } := by
  rw [abs_setReader, hr]
  exact Net.ext rfl rfl rfl rfl rfl rfl rfl rfl (Function.update_eq_self _ _)

theorem abs_take {i : ℕ} {ps : List Slice} (hr : (p.reader i).unhandled = [])
    (hstep : p.take i ps = some p') :
    p.abs.take i (ps.map p.heap.read) = some p'.abs := by
  unfold take at hstep
  cases hqueue : p.queue i with
  | nil => simp [hqueue] at hstep
  | cons s rest =>
    simp only [hqueue, Option.some.injEq] at hstep
    subst hstep
    have habs : p.abs.queue i = p.heap.read s :: rest.map p.heap.read := by
      simp only [abs, hqueue, List.map_cons]
    have hset := abs_setReader_of_eq (p := { p with queue := Function.update p.queue i rest })
      (i := i) (r := .batch (ps ++ [s])) hr.symm
    unfold Net.take
    rw [habs, hset]
    refine congrArg some (Net.ext rfl rfl rfl ?_ ?_ rfl rfl rfl rfl)
    · funext j
      exact (Function.apply_update (fun _ q => List.map p.heap.read q) p.queue i rest j).symm
    · simp only [PooledReader.abs, List.map_append, List.map_singleton]
      rfl

/-- `RecvBatch` returns. -/
theorem abs_return {i : ℕ} {ps : List Slice} (hr : p.reader i = .batch ps) :
    p.abs.deliver i (ps.map p.heap.read) = (p.setReader i (.handling ps)).abs := by
  have hgot : p.abs.got i = p.handled i := by simp [abs, hr, PooledReader.unhandled]
  rw [abs_setReader, Net.deliver, hgot]
  rfl

theorem abs_recv {i : ℕ} {choice : RecvChoice} (hstep : p.recv i choice = some p') :
    p.abs.recv i choice = some p'.abs := by
  have habs : p.abs.reader i = (p.reader i).abs p.heap := rfl
  unfold recv at hstep
  unfold Net.recv
  cases hreader : p.reader i with
  | ended => simp [hreader] at hstep
  | handling ps => simp [hreader] at hstep
  | idle =>
    rw [hreader] at habs
    simp only [habs, PooledReader.abs]
    simp only [hreader] at hstep
    cases choice with
    | data => exact abs_take (by rw [hreader]; rfl) hstep
    | default => cases hstep
    | done =>
      simp only [Option.ite_none_right_eq_some, Option.some.injEq] at hstep
      obtain ⟨hclosed, rfl⟩ := hstep
      have hset := abs_setReader_of_eq (p := p) (i := i) (r := .ended) (by rw [hreader]; rfl)
      rw [hset]
      exact if_pos hclosed
  | batch ps =>
    rw [hreader] at habs
    simp only [habs, PooledReader.abs, List.length_map, abs_return hreader]
    simp only [hreader] at hstep
    split at hstep
    · rename_i hlt
      rw [if_pos hlt]
      cases choice with
      | data => exact abs_take (by rw [hreader]; rfl) hstep
      | done =>
        simp only [Option.ite_none_right_eq_some, Option.some.injEq] at hstep
        obtain ⟨hclosed, rfl⟩ := hstep
        exact if_pos hclosed
      | default =>
        simp only [Option.ite_none_right_eq_some, Option.some.injEq] at hstep
        obtain ⟨⟨hempty, hopen⟩, rfl⟩ := hstep
        have hempty' : p.abs.queue i = [] := by simp only [abs, hempty, List.map_nil]
        exact if_pos ⟨hempty', hopen⟩
    · rename_i hge
      rw [if_neg hge]
      exact congrArg (Option.map abs) hstep

theorem handle_eq_some (hstep : p.handle i = some p') : ∃ s rest, p.reader i = .handling (s :: rest) ∧
    p' = setReader { p with
      handled := Function.update p.handled i (p.handled i ++ [p.heap.read s])
      heap := putPacket p.heap s } i (.after rest) := by
  unfold handle at hstep
  split at hstep
  · exact ⟨_, _, by assumption, (Option.some.inj hstep).symm⟩
  · cases hstep

theorem inv_handle (h : p.Inv) (hstep : p.handle i = some p') : p'.Inv := by
  obtain ⟨s, rest, hreader, rfl⟩ := handle_eq_some hstep
  have hold : p.slicesOf i = p.queue i ++ s :: rest := by rw [slicesOf, hreader]; rfl
  have hs : s ∈ p.slicesOf i := by simp [hold]
  have hnew : slicesOf (setReader { p with
      handled := Function.update p.handled i (p.handled i ++ [p.heap.read s])
      heap := putPacket p.heap s } i (.after rest)) i = p.queue i ++ rest := by
    simp only [slicesOf, setReader, Function.update_self, slices_after]
  refine inv_of_owned h rfl (mem_putPacket _ _) (owned_putPacket (h.owned.perm ?_) (h.fits i s hs))
    (List.Subset.refl _) fun j t ht => .inl ?_
  · refine perm_flatMap_update (b := s.buf :: p.rounds.map fun r => r.plain.buf)
      (lt_of_slice h hs) (fun j hj => ?_) ?_
    · simp only [slicesOf, setReader, Function.update_of_ne hj]
    · rw [hnew, hold, List.map_append, List.map_append, List.map_cons, ← List.append_assoc,
        List.cons_append, ← List.append_assoc]
      exact List.perm_middle
  · rcases eq_or_ne j i with rfl | hne
    · rw [hnew] at ht
      rw [hold]
      exact ((List.sublist_cons_self s rest).append_left _).subset ht
    · simp only [slicesOf, setReader, Function.update_of_ne hne] at ht
      exact ht

theorem abs_handle (hstep : p.handle i = some p') : p'.abs = p.abs := by
  obtain ⟨s, rest, hreader, rfl⟩ := handle_eq_some hstep
  refine (abs_putPacket (setReader { p with
    handled := Function.update p.handled i (p.handled i ++ [p.heap.read s]) } i (.after rest))
      s).trans ?_
  rw [abs_setReader, abs_after, unhandled_after]
  refine Net.ext rfl rfl rfl rfl ?_ rfl rfl rfl ?_
  · refine Function.update_eq_self_iff.mpr ?_
    show Reader.idle = (p.reader i).abs p.heap
    rw [hreader]
    rfl
  · funext j
    rcases eq_or_ne j i with rfl | hne
    · simp [abs, hreader, PooledReader.unhandled]
    · simp [abs, Function.update_of_ne hne]

/-- **Every step is one of `Net`, or none.** -/
theorem simulated (p : PooledNet) (e : PooledEvent) (p' : PooledNet) (h : p.Inv)
    (hstep : p.step U e = some p') :
    p'.Inv ∧ Simulated (Net.step U) abs erase p e p' := by
  cases e with
  | register keys cfg =>
    obtain rfl := Option.some.inj hstep
    exact ⟨inv_register h keys cfg, rfl⟩
  | close i =>
    obtain rfl := Option.some.inj hstep
    exact ⟨inv_srv h (Net.length_close p.srv.mux i), rfl⟩
  | send i payload poolCap r =>
    obtain rfl := Option.some.inj hstep
    exact ⟨⟨h.owned, h.unused, h.rounds, h.fits⟩, rfl⟩
  | arrive a choice junk => exact inv_arrive h hstep
  | enqueue k => exact ⟨inv_enqueue h hstep, abs_enqueue hstep⟩
  | recv i choice => exact ⟨inv_recv h hstep, abs_recv hstep⟩
  | handle i => exact ⟨inv_handle h hstep, abs_handle hstep⟩
  | forget k =>
    obtain rfl := Option.some.inj hstep
    exact ⟨inv_forget h k, abs_heap (fun _ _ => rfl) h⟩

/-- **A run in the buffers is a run of payloads.** -/
theorem inv_run {clients : ℕ → UDPChannel} {srv : UDPServer} {es : List PooledEvent}
    (hrun : Machine.run (PooledNet.step U) (start clients srv) es = some p) :
    p.Inv ∧ Machine.run (Net.step U) (.start clients srv) (es.filterMap erase) = some p.abs :=
  run_simulated simulated (inv_start clients srv) hrun

end PooledNet

/-! ## At most once -/

/-- Whatever opens is genuine, whatever the buffers hold. -/
def PooledNet.Genuine (U : UDPCiphers) (p : PooledNet) (e : PooledEvent) : Prop :=
  ∀ a, PooledNet.erase e = some a → p.abs.Genuine U a

instance (U : UDPCiphers) (p : PooledNet) (e : PooledEvent) : Decidable (p.Genuine U e) :=
  match h : PooledNet.erase e with
  | none => isTrue (by simp [PooledNet.Genuine, h])
  | some a => decidable_of_iff (p.abs.Genuine U a) (by simp [PooledNet.Genuine, h])

/-- **No packet is lost in its buffer.** What `udpClientToTUN` reads is what the rounds put into the
queue, in that order; and if whatever opens is genuine, each packet of the client is read at most
once. -/
theorem handled_at_most_once {U : UDPCiphers} {clients : ℕ → UDPChannel} {srv : UDPServer}
    {es : List PooledEvent} {p : PooledNet}
    (hrun : Machine.run (PooledNet.step U) (.start clients srv) es = some p) (i : ℕ) :
    (p.handled i).Sublist (p.put i) ∧
    (p.heap.free.map Slice.buf ++ p.held).Nodup ∧
    (Along (PooledNet.step U) (PooledNet.Genuine U) (.start clients srv) es →
      (p.handled i).Subperm
        ((p.sent i).map fun q => unframe (p.srv.states i).settings.useBucketPadding q.plain) ∧
      ((p.srv.states i).settings.useBucketPadding = (p.clients i).settings.useBucketPadding →
        (∀ q ∈ p.sent i, q.Intact (p.clients i).settings) →
          (p.handled i).Subperm ((p.sent i).map SentPacket.payload))) := by
  obtain ⟨hpooled, hnet⟩ := PooledNet.inv_run hrun
  have hordered : p.abs.Ordered i := Net.Ordered.run hnet i
  have hgot : (p.handled i).Sublist (p.abs.got i) := List.sublist_append_left _ _
  refine ⟨hgot.trans hordered.got_sublist, hpooled.owned.nodup, fun hgen => ?_⟩
  have halong := along_simulated PooledNet.simulated
    (PooledNet.inv_start clients srv) hgen hrun
  have hinv : p.abs.Inv i := Net.Inv.run halong hnet i
  have hsub : (p.handled i).Subperm ((p.sent i).map fun q =>
      unframe (p.srv.states i).settings.useBucketPadding q.plain) :=
    hgot.subperm.trans ((hinv.got_subperm hordered).trans hinv.accepting.subperm)
  refine ⟨hsub, fun hpad hintact => ?_⟩
  have hmap := hinv.unframe_sent hpad hintact
  exact hmap ▸ hsub

section Sample

/-- The run of `netEvents` in buffers: the repeated datagram gives its buffer back, and comes once
more in the buffer of a packet that has been handled. -/
def pooledEvents : List PooledEvent :=
  [.register (sampleKeys ⟨1, 2, 3, 4⟩).swap defaultUDPSettings, .send 0 [1] 2048 sampleDraws,
    .send 0 [2] 2048 sampleDraws, .arrive (netArrival 1 true) none [],
    .arrive (netArrival 0 false) none [], .arrive (netArrival 2 false) none [], .enqueue 0,
    .enqueue 0, .recv 0 .data, .recv 0 .data, .recv 0 .default, .handle 0,
    .arrive (netArrival 2 false) (some 0) [], .handle 0]

def pooledStart : PooledNet := .start (fun _ => netClient) netServer

def pooledEnd : PooledNet := last (PooledNet.step .sample) pooledStart pooledEvents

theorem handled_at_most_once_reused :
    pooledEnd.handled 0 = [[2], [1]] ∧ pooledEnd.heap.next = 3 ∧
      (pooledEnd.handled 0).Subperm ((pooledEnd.sent 0).map SentPacket.payload) := by
  have hrun : Machine.run (PooledNet.step .sample) pooledStart pooledEvents = some pooledEnd :=
    run_eq_last (by decide +kernel)
  have hgen : Along (PooledNet.step .sample) (PooledNet.Genuine .sample) pooledStart pooledEvents := by
    decide +kernel
  refine ⟨by decide +kernel, by decide +kernel, ?_⟩
  exact ((handled_at_most_once hrun 0).2.2 hgen).2 (by decide +kernel) (by decide +kernel)

end Sample

end ObsidianVPN.Udp
