import ObsidianVPN.Udp.Ratchet

/-!
# `RatchetEpoch`, `Send` and `runOnConn` interleaved

On the server, `Send` reads the tag, the AEAD key and the header key of a session one after the
other, without a mutex. `runOnConn` looks a datagram up without a mutex as well, and takes `recvMu`
only to pick the keys. After its two sections `RatchetEpoch` adds the new tag to the table.

* `RecvPc`, `UDPMux.recvStep`: `runOnConn` from the look-up to the keys, with each read as one step;
  **`recvAlone_eq_select`**: without interruption it finds what `UDPMux.select` finds;
* `ServerState.step`: any number of calls of `Send` and `runOnConn`, and one call of `RatchetEpoch`
  for each session, in any order; **`emitted_alone`**: without interruption a call of `Send` writes
  what `SessionState.send` writes;
* `ServerState.Coherent`: the step seals or opens with the keys of one epoch;
  `ServerState.InStep`: where the calls have to be for that.

The keys of epoch `e` of the session `i` are `E i e`, if there is such an epoch.
-/

namespace ObsidianVPN.Udp

open ByteStr

/-! ## The receive path -/

/-- Where `runOnConn` is with a datagram. -/
inductive RecvPc where
  | loadMru
  | mruTag (mru : ℕ)
  | mruPrevDec (mru : ℕ)
  | mruPrevTag (mru : ℕ)
  | tableGet
  | sessTag (sess : ℕ)
  | sessPrevTag (sess : ℕ)
  | storeMru (sess : ℕ) (isPrevTag : Bool)
  /-- Before the section under `recvMu`. -/
  | pickKeys (foundSess : ℕ) (isPrevTag : Bool)

/-- What comes of a step of `runOnConn`. -/
inductive RecvNext where
  | goto (pc : RecvPc)
  | dropped
  /-- The datagram is opened with these keys. -/
  | opened (foundSess : ℕ) (dec hp : Bytes)

/-- One step of `runOnConn`. -/
def UDPMux.recvStep (m : UDPMux) (tag : Tag) : RecvPc → RecvNext × UDPMux
  | .loadMru =>
    match m.mruSession with
    | some mru => (.goto (.mruTag mru), m)
    | none => (.goto .tableGet, m)
  | .mruTag mru =>
    match m.sessions[mru]? with
    | some s =>
      if s.tag = tag then (.goto (.pickKeys mru false), m) else (.goto (.mruPrevDec mru), m)
    | none => (.goto .tableGet, m)
  | .mruPrevDec mru =>
    match m.sessions[mru]? with
    | some s =>
      if s.prevDecAEAD.isSome then (.goto (.mruPrevTag mru), m) else (.goto .tableGet, m)
    | none => (.goto .tableGet, m)
  | .mruPrevTag mru =>
    match m.sessions[mru]? with
    | some s => if s.prevTag = tag then (.goto (.pickKeys mru true), m) else (.goto .tableGet, m)
    | none => (.goto .tableGet, m)
  | .tableGet =>
    match m.table.get tag with
    | some sess => (.goto (.sessTag sess), m)
    | none => (.dropped, m)
  | .sessTag sess =>
    match m.sessions[sess]? with
    | some s =>
      if s.tag ≠ tag then (.goto (.sessPrevTag sess), m) else (.goto (.storeMru sess false), m)
    | none => (.dropped, m)
  | .sessPrevTag sess =>
    match m.sessions[sess]? with
    | some s => (.goto (.storeMru sess (decide (s.prevTag = tag))), m)
    | none => (.dropped, m)
  | .storeMru sess isPrevTag => (.goto (.pickKeys sess isPrevTag), { m with mruSession := some sess })
  | .pickKeys foundSess isPrevTag =>
    match m.sessions[foundSess]? with
    | some s => (.opened foundSess (s.recvKeys isPrevTag).1 (s.recvKeys isPrevTag).2, m)
    | none => (.dropped, m)

/-- At most `n` steps of `runOnConn` in a row. -/
def UDPMux.recvAlone (m : UDPMux) (tag : Tag) : ℕ → RecvPc → RecvNext × UDPMux
  | 0, pc => (.goto pc, m)
  | n + 1, pc =>
    match m.recvStep tag pc with
    | (.goto pc', m') => m'.recvAlone tag n pc'
    | done => done

section Alone

variable {m : UDPMux} {tag : Tag} {i : ℕ} {isPrevTag : Bool} {s : UDPSession}

theorem recvAlone_goto {m' : UDPMux} {pc pc' : RecvPc} (h : m.recvStep tag pc = (.goto pc', m'))
    (n : ℕ) : m.recvAlone tag (n + 1) pc = m'.recvAlone tag n pc' := by
  rw [UDPMux.recvAlone, h]

/-- The look-up in the table. -/
theorem recvAlone_tableGet (hsel : m.tableSelect tag = some (i, isPrevTag))
    (hs : m.sessions[i]? = some s) (n : ℕ) :
    m.recvAlone tag (n + 5) .tableGet =
      (.opened i (s.recvKeys isPrevTag).1 (s.recvKeys isPrevTag).2,
        { m with mruSession := some i }) := by
  simp only [UDPMux.tableSelect, Option.bind_eq_bind, Option.bind_eq_some_iff, Option.pure_def,
    Option.some.injEq, Prod.mk.injEq] at hsel
  obtain ⟨j, hget, s', hs', rfl, rfl⟩ := hsel
  obtain rfl := Option.some.inj (hs'.symm.trans hs)
  by_cases htag : s'.tag = tag
  · simp [UDPMux.recvAlone, UDPMux.recvStep, hget, hs, htag]
  · by_cases hprev : s'.prevTag = tag
    · simp [UDPMux.recvAlone, UDPMux.recvStep, hget, hs, htag, hprev]
    · simp [UDPMux.recvAlone, UDPMux.recvStep, hget, hs, htag, hprev]

/-- The fast path finds the session. -/
theorem recvAlone_of_mruSelect (hsel : m.mruSelect tag = some (i, isPrevTag))
    (hs : m.sessions[i]? = some s) :
    m.recvAlone tag 9 .loadMru =
      (.opened i (s.recvKeys isPrevTag).1 (s.recvKeys isPrevTag).2, m) := by
  simp only [UDPMux.mruSelect, Option.bind_eq_bind, Option.bind_eq_some_iff] at hsel
  obtain ⟨j, hmru, s', hs', hif⟩ := hsel
  by_cases htag : s'.tag = tag
  · obtain ⟨rfl, rfl⟩ : j = i ∧ false = isPrevTag := by simpa [htag] using hif
    obtain rfl := Option.some.inj (hs'.symm.trans hs)
    simp [UDPMux.recvAlone, UDPMux.recvStep, hmru, hs, htag]
  · rw [if_neg htag] at hif
    split at hif
    · rename_i hprev
      obtain ⟨rfl, rfl⟩ : j = i ∧ true = isPrevTag := by simpa using hif
      obtain rfl := Option.some.inj (hs'.symm.trans hs)
      simp [UDPMux.recvAlone, UDPMux.recvStep, hmru, hs, htag, hprev]
    · exact absurd hif (by simp)

/-- The fast path finds nothing and leaves at least five steps for the table. -/
theorem recvAlone_of_mruSelect_none (hsel : m.mruSelect tag = none) :
    ∃ n, m.recvAlone tag 9 .loadMru = m.recvAlone tag (n + 5) .tableGet := by
  simp only [UDPMux.mruSelect, Option.bind_eq_bind] at hsel
  cases hmru : m.mruSession with
  | none =>
    have hload : m.recvStep tag .loadMru = (.goto .tableGet, m) := by
      simp only [UDPMux.recvStep, hmru]
    exact ⟨3, recvAlone_goto hload 8⟩
  | some j =>
    have hload : m.recvStep tag .loadMru = (.goto (.mruTag j), m) := by
      simp only [UDPMux.recvStep, hmru]
    cases hs : m.sessions[j]? with
    | none =>
      have hgone : m.recvStep tag (.mruTag j) = (.goto .tableGet, m) := by
        simp only [UDPMux.recvStep, hs]
      exact ⟨2, (recvAlone_goto hload 8).trans (recvAlone_goto hgone 7)⟩
    | some s =>
      simp only [hmru, Option.bind_some, hs] at hsel
      split at hsel
      · exact absurd hsel (by simp)
      · rename_i htag
        have hother : m.recvStep tag (.mruTag j) = (.goto (.mruPrevDec j), m) := by
          simp only [UDPMux.recvStep, hs, htag, if_false]
        have htwo := (recvAlone_goto hload 8).trans (recvAlone_goto hother 7)
        split at hsel
        · exact absurd hsel (by simp)
        · rename_i hprev
          cases hdec : s.prevDecAEAD with
          | none =>
            have hnone : m.recvStep tag (.mruPrevDec j) = (.goto .tableGet, m) := by
              simp [UDPMux.recvStep, hs, hdec]
            exact ⟨1, htwo.trans (recvAlone_goto hnone 6)⟩
          | some dec =>
            have hsome : m.recvStep tag (.mruPrevDec j) = (.goto (.mruPrevTag j), m) := by
              simp [UDPMux.recvStep, hs, hdec]
            have hne : s.prevTag ≠ tag := fun heq => hprev ⟨by simp [hdec], heq⟩
            have hlast : m.recvStep tag (.mruPrevTag j) = (.goto .tableGet, m) := by
              simp only [UDPMux.recvStep, hs, hne, if_false]
            exact ⟨0, htwo.trans ((recvAlone_goto hsome 6).trans (recvAlone_goto hlast 5))⟩

/-- **Without interruption the steps find the session and the flag that `select` finds.** -/
theorem recvAlone_eq_select (hsel : m.select tag = some (i, isPrevTag))
    (hs : m.sessions[i]? = some s) :
    m.recvAlone tag 9 .loadMru =
      (.opened i (s.recvKeys isPrevTag).1 (s.recvKeys isPrevTag).2, m.arrive tag) := by
  unfold UDPMux.select at hsel
  unfold UDPMux.arrive
  cases hmru : m.mruSelect tag with
  | some r =>
    rw [hmru] at hsel
    obtain rfl := Option.some.inj hsel
    exact recvAlone_of_mruSelect hmru hs
  | none =>
    rw [hmru] at hsel
    change m.tableSelect tag = some (i, isPrevTag) at hsel
    obtain ⟨n, hn⟩ := recvAlone_of_mruSelect_none hmru
    rw [hn, recvAlone_tableGet hsel hs, hsel]

end Alone

/-! ## The server -/

/-- Where `RatchetEpoch` is with a session. -/
inductive RatchetStage where
  | idle
  /-- Between the section under `sendMu` and the one under `recvMu`. -/
  | between (k : Ratchet)
  /-- Before `s.tag` is read for the table. -/
  | readTag
  | setTag (tag : Tag)

/-- The epoch of a session before the ratchet under way, if `epoch` counts the first sections: the
tag of this epoch is in the table. -/
def RatchetStage.settled (epoch : ℕ) : RatchetStage → ℕ
  | .idle => epoch
  | _ => epoch - 1

/-- The number of second sections, if `epoch` counts the first ones. -/
def RatchetStage.recvEpoch (epoch : ℕ) : RatchetStage → ℕ
  | .between _ => epoch - 1
  | _ => epoch

/-- What `Send` has read so far. -/
inductive SendPc where
  | start
  | tagged (tag : Tag)
  | keyed (tag : Tag) (enc : Bytes)

/-- A call of `Send` that has passed its checks and has its counter. -/
structure SendCall where
  session : ℕ
  payload : Bytes
  poolCap : ℕ
  draws : SendDraws
  addr : UDPAddr
  ctr : ℕ
  pc : SendPc

/-- A datagram that `runOnConn` is looking up. -/
structure RecvCall where
  packet : Bytes
  pc : RecvPc
  /-- The epochs of the sessions when the datagram was read, before the ratchets under way. -/
  since : ℕ → ℕ

/-- The server while `RatchetEpoch` is called. -/
structure ServerState where
  srv : UDPServer
  /-- The number of first sections so far, for each session. -/
  epoch : ℕ → ℕ
  stage : ℕ → RatchetStage
  sends : ℕ → Option SendCall
  recvs : ℕ → Option RecvCall

/-- The steps of the server: the four of `RatchetEpoch` for a session, the start and the next read
of the call `k` of `Send`, and the same for `runOnConn`. -/
inductive ServerAct where
  | ratchetSend (i : ℕ)
  | ratchetRecv (i : ℕ)
  | ratchetTag (i : ℕ)
  | ratchetSet (i : ℕ)
  | sendStart (k i : ℕ) (payload : Bytes) (poolCap : ℕ) (draws : SendDraws)
  | send (k : ℕ)
  | recvStart (k : ℕ) (datagram : Bytes)
  | recv (k : ℕ)

/-- No call is under way. -/
def ServerState.start (srv : UDPServer) (epoch : ℕ → ℕ) : ServerState :=
  ⟨srv, epoch, fun _ => .idle, fun _ => none, fun _ => none⟩

def ServerState.settled (st : ServerState) (i : ℕ) : ℕ := (st.stage i).settled (st.epoch i)

def ServerState.recvEpoch (st : ServerState) (i : ℕ) : ℕ := (st.stage i).recvEpoch (st.epoch i)

def UDPMux.setSession (m : UDPMux) (i : ℕ) (s : UDPSession) : UDPMux :=
  { m with sessions := m.sessions.set i s }

/-- A step of `RatchetEpoch` for the session `i`. -/
def ServerState.setRatchet (st : ServerState) (i : ℕ) (m : UDPMux) (epoch : ℕ)
    (stage : RatchetStage) : ServerState :=
  { st with
    srv := { st.srv with mux := m }
    epoch := Function.update st.epoch i epoch
    stage := Function.update st.stage i stage }

section Server

variable (E : ℕ → ℕ → Option UDPKeys)

/-- `RatchetEpoch` runs its section under `sendMu`. -/
def ServerState.ratchetSend (st : ServerState) (i : ℕ) : ServerState :=
  match st.stage i, E i (st.epoch i + 1), st.srv.mux.sessions[i]? with
  | .idle, some keys, some s =>
    st.setRatchet i (st.srv.mux.setSession i (s.ratchetSend keys).1) (st.epoch i + 1)
      (.between (s.ratchetSend keys).2)
  | _, _, _ => st

/-- `RatchetEpoch` runs its section under `recvMu`. -/
def ServerState.ratchetRecv (st : ServerState) (i : ℕ) : ServerState :=
  match st.stage i, st.srv.mux.sessions[i]? with
  | .between k, some s =>
    st.setRatchet i (st.srv.mux.setSession i (s.ratchetRecv k)) (st.epoch i) .readTag
  | _, _ => st

/-- `RatchetEpoch` reads the tag for the table. -/
def ServerState.ratchetTag (st : ServerState) (i : ℕ) : ServerState :=
  match st.stage i, st.srv.mux.sessions[i]? with
  | .readTag, some s => st.setRatchet i st.srv.mux (st.epoch i) (.setTag s.tag)
  | _, _ => st

/-- `RatchetEpoch` adds the tag to the table. -/
def ServerState.ratchetSet (st : ServerState) (i : ℕ) : ServerState :=
  match st.stage i, st.srv.mux.sessions[i]? with
  | .setTag tag, some _ =>
    st.setRatchet i { st.srv.mux with table := st.srv.mux.table.set tag i } (st.epoch i) .idle
  | _, _ => st

/-- `Send` looks at `done` and at the client's address and takes a counter. -/
def ServerState.sendStart (st : ServerState) (k i : ℕ) (payload : Bytes) (poolCap : ℕ)
    (draws : SendDraws) : ServerState :=
  match st.sends k, st.srv.mux.sessions[i]?, (st.srv.states i).clientAddr with
  | none, some s, some addr =>
    if s.closed then st
    else
      let state := st.srv.states i
      { st with
        srv := { st.srv with
          states := Function.update st.srv.states i
            { state with sendCtr := (state.sendCtr + 1) % 2 ^ 64 } }
        sends := Function.update st.sends k
          (some ⟨i, payload, poolCap, draws, addr, state.sendCtr, .start⟩) }
  | _, _, _ => st

/-- `Send` reads the next field of its session; with the last one it writes its datagram. -/
def ServerState.send (st : ServerState) (k : ℕ) : ServerState :=
  match st.sends k with
  | none => st
  | some call =>
    match st.srv.mux.sessions[call.session]? with
    | none => st
    | some s =>
      match call.pc with
      | .start =>
        { st with sends := Function.update st.sends k (some { call with pc := .tagged s.tag }) }
      | .tagged tag =>
        { st with
          sends := Function.update st.sends k (some { call with pc := .keyed tag s.encAEAD }) }
      | .keyed _ _ => { st with sends := Function.update st.sends k none }

/-- `runOnConn` has read a datagram. -/
def ServerState.recvStart (st : ServerState) (k : ℕ) (datagram : Bytes) : ServerState :=
  match st.recvs k, packetData datagram with
  | none, some packet =>
    { st with recvs := Function.update st.recvs k (some ⟨packet, .loadMru, st.settled⟩) }
  | _, _ => st

/-- `runOnConn` goes on with a datagram. -/
def ServerState.recv (st : ServerState) (k : ℕ) : ServerState :=
  match st.recvs k with
  | none => st
  | some call =>
    match st.srv.mux.recvStep (Tag.read call.packet) call.pc with
    | (.goto pc, m) =>
      { st with
        srv := { st.srv with mux := m }
        recvs := Function.update st.recvs k (some { call with pc := pc }) }
    | (_, m) =>
      { st with
        srv := { st.srv with mux := m }
        recvs := Function.update st.recvs k none }

/-- A step; one that cannot be taken changes nothing. -/
def ServerState.step (st : ServerState) : ServerAct → ServerState
  | .ratchetSend i => st.ratchetSend E i
  | .ratchetRecv i => st.ratchetRecv i
  | .ratchetTag i => st.ratchetTag i
  | .ratchetSet i => st.ratchetSet i
  | .sendStart k i payload poolCap draws => st.sendStart k i payload poolCap draws
  | .send k => st.send k
  | .recvStart k datagram => st.recvStart k datagram
  | .recv k => st.recv k

/-- The server after a run. -/
def ServerState.run (st : ServerState) (acts : List ServerAct) : ServerState :=
  acts.foldl (ServerState.step E) st

/-- The session of the call, with the fields as the call has read them, when it reads the last one. -/
def ServerState.sealing (st : ServerState) (k : ℕ) : Option (SendCall × UDPSession) := do
  let call ← st.sends k
  let s ← st.srv.mux.sessions[call.session]?
  match call.pc with
  | .keyed tag enc => return (call, { s with tag := tag, encAEAD := enc, closed := false })
  | _ => none

/-- The datagram that a step of `Send` writes, if it is the last one. -/
def ServerState.emitted (U : UDPCiphers) (st : ServerState) (k : ℕ) :
    Option (Except String Sent) :=
  (st.sealing k).map fun (call, s) =>
    ({ st.srv.states call.session with clientAddr := some call.addr, sendCtr := call.ctr }.send U s
      st.srv.conn call.payload call.poolCap call.draws).1

/-- The tag of the datagram is that of epoch `e` of the session `i`, and this is the session's
current or previous tag, before or after a ratchet that overlaps with the look-up. -/
structure ServerState.Expects (st : ServerState) (call : RecvCall) (i e : ℕ) (keys : UDPKeys) :
    Prop where
  session : i < st.srv.mux.sessions.length
  epoch : E i e = some keys
  tag : Tag.read call.packet = keys.sessionTag
  low : call.since i ≤ e + 1
  high : e ≤ st.epoch i

/-- What the step seals is sealed with the tag and the keys of one epoch; a datagram with a tag of
a session is opened with the keys of its epoch. -/
def ServerState.Coherent (st : ServerState) : ServerAct → Prop
  | .send k => ∀ call s, st.sealing k = some (call, s) →
      Seal.OfEpoch (E call.session) ⟨s.tag, s.encAEAD, s.hp⟩
  | .recv k => ∀ call, st.recvs k = some call → ∀ i e keys, st.Expects E call i e keys →
      match (st.srv.mux.recvStep (Tag.read call.packet) call.pc).1 with
      | .goto _ => True
      | .dropped => False
      | .opened j dec hp => j = i ∧ dec = keys.recvKey ∧ hp = keys.headerKey
  | _ => True

/-- `Send` still finds the tag that it has read; `runOnConn` finds the tag in the table, and the
sections that are done are those of the epoch that it has found. -/
def ServerState.InStep (st : ServerState) : ServerAct → Prop
  | .send k => ∀ call tag enc s, st.sends k = some call → call.pc = .keyed tag enc →
      st.srv.mux.sessions[call.session]? = some s → s.tag = tag
  | .recv k => ∀ call, st.recvs k = some call → ∀ i e keys, st.Expects E call i e keys →
      match call.pc with
      | .tableGet => e ≤ st.settled i
      | .pickKeys _ isPrevTag =>
        if isPrevTag = true ∧ 0 < st.recvEpoch i then st.recvEpoch i = e + 1
        else st.epoch i = e ∧ st.recvEpoch i = e
      | _ => True
  | _ => True

end Server

/-- **Without interruption `Send` writes the datagram that `SessionState.send` writes.** -/
theorem emitted_alone (U : UDPCiphers) (E : ℕ → ℕ → Option UDPKeys) {st : ServerState} {k i : ℕ}
    (hfree : st.sends k = none) {s : UDPSession} (hs : st.srv.mux.sessions[i]? = some s)
    (hopen : s.closed = false) {addr : UDPAddr} (haddr : (st.srv.states i).clientAddr = some addr)
    (payload : Bytes) (poolCap : ℕ) (draws : SendDraws) :
    (st.run E [.sendStart k i payload poolCap draws, .send k, .send k]).emitted U k =
      some ((st.srv.states i).send U s st.srv.conn payload poolCap draws).1 := by
  have hself : { s with closed := false } = s := by rw [← hopen]
  have hstate : { st.srv.states i with clientAddr := some addr } = st.srv.states i := by rw [← haddr]
  simp [ServerState.run, ServerState.step, ServerState.sendStart, ServerState.send,
    ServerState.emitted, ServerState.sealing, hfree, hs, hopen, haddr, hself, hstate]

end ObsidianVPN.Udp
