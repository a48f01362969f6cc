import ObsidianVPN.Lib.Bytes
import ObsidianVPN.Lib.ShardedMap

/-!
# The server's UDP multiplexer

One socket carries the datagrams of many sessions. A datagram starts with a 4-byte tag; the
multiplexer finds its session through the most recently used session (`mruSession`) or through a
sharded table of tags.

A session is named by the number of `RegisterSession` calls before its own, so the pointers of
the source are indices into the list of all sessions ever registered.

* `registerSession`, `ratchetEpoch`, `close`, `arrive`: the operations, gathered in `step` and `run`;
* `select`: the session and the previous-epoch flag that `runOnConn` finds for a tag, and
  `tableSelect`: what the table alone gives;
* `get_registerSession`, `get_ratchetEpoch`, `get_close`, `sessions_close`: what an operation does
  to the table and to the sessions.
-/

namespace ObsidianVPN.Udp

open ByteStr

/-- A session tag. -/
structure Tag where
  b0 : UInt8
  b1 : UInt8
  b2 : UInt8
  b3 : UInt8
  deriving DecidableEq, Repr

/-- The tag of four zero bytes, which `Close` reads as "no previous tag". -/
def Tag.zero : Tag := ⟨0, 0, 0, 0⟩

def numSessionShards : ℕ := 32

def shardFor (tag : Tag) : Fin numSessionShards :=
  ⟨(tag.b0.toNat ^^^ tag.b1.toNat <<< 2 ^^^ tag.b2.toNat <<< 4 ^^^ tag.b3.toNat <<< 6) %
    numSessionShards, Nat.mod_lt _ (by decide)⟩

structure UDPKeys where
  sendKey : Bytes
  recvKey : Bytes
  headerKey : Bytes
  sessionTag : Tag
  deriving DecidableEq

/-- The part of `UDPSession` that the look-up of datagrams reads. A cipher is given by its key. -/
structure UDPSession where
  encAEAD : Bytes
  decAEAD : Bytes
  prevDecAEAD : Option Bytes
  hp : Bytes
  prevHp : Option Bytes
  tag : Tag
  prevTag : Tag
  closed : Bool
  deriving DecidableEq

abbrev SessionTable := ShardedMap Tag ℕ numSessionShards

structure UDPMux where
  sessions : List UDPSession
  table : SessionTable
  mruSession : Option ℕ

def newUDPMux : UDPMux := ⟨[], .empty shardFor, none⟩

/-! ## Operations -/

/-- A session as `RegisterSession` makes it. -/
def newUDPSession (keys : UDPKeys) : UDPSession where
  encAEAD := keys.sendKey
  decAEAD := keys.recvKey
  prevDecAEAD := none
  hp := keys.headerKey
  prevHp := none
  tag := keys.sessionTag
  prevTag := .zero
  closed := false

def UDPMux.registerSession (m : UDPMux) (keys : UDPKeys) : UDPMux where
  sessions := m.sessions ++ [newUDPSession keys]
  table := m.table.set keys.sessionTag m.sessions.length
  mruSession := some m.sessions.length

def UDPMux.unregisterSession (m : UDPMux) (tag : Tag) : UDPMux :=
  { m with
    table := m.table.delete tag
    mruSession := m.mruSession.filter fun i => decide ((m.sessions[i]?).map UDPSession.tag ≠ some tag) }

/-- The fields `RatchetEpoch` changes in its session. -/
def UDPSession.ratchet (s : UDPSession) (keys : UDPKeys) : UDPSession :=
  { s with
    encAEAD := keys.sendKey
    hp := keys.headerKey
    tag := keys.sessionTag
    prevDecAEAD := some s.decAEAD
    decAEAD := keys.recvKey
    prevHp := some s.hp
    prevTag := s.tag }

def UDPMux.ratchetEpoch (m : UDPMux) (i : ℕ) (keys : UDPKeys) : UDPMux :=
  match m.sessions[i]? with
  | none => m
  | some s =>
    { m with
      sessions := m.sessions.set i (s.ratchet keys)
      table := m.table.set keys.sessionTag i }

/-- `Close`; only the first call does anything. -/
def UDPMux.close (m : UDPMux) (i : ℕ) : UDPMux :=
  match m.sessions[i]? with
  | none => m
  | some s =>
    if s.closed then m
    else
      let m := m.unregisterSession s.tag
      let m := if s.prevTag ≠ .zero then m.unregisterSession s.prevTag else m
      { m with sessions := m.sessions.set i { s with closed := true } }

/-- The session the most recently used one gives for a tag, with the previous-epoch flag. -/
def UDPMux.mruSelect (m : UDPMux) (tag : Tag) : Option (ℕ × Bool) := do
  let i ← m.mruSession
  let mru ← m.sessions[i]?
  if mru.tag = tag then some (i, false)
  else if mru.prevDecAEAD.isSome ∧ mru.prevTag = tag then some (i, true)
  else none

/-- The session the table gives for a tag, with the previous-epoch flag. -/
def UDPMux.tableSelect (m : UDPMux) (tag : Tag) : Option (ℕ × Bool) := do
  let i ← m.table.get tag
  let sess ← m.sessions[i]?
  return (i, decide (sess.tag ≠ tag ∧ sess.prevTag = tag))

/-- The look-up of `runOnConn`: the most recently used session first, then the table. -/
def UDPMux.select (m : UDPMux) (tag : Tag) : Option (ℕ × Bool) :=
  match m.mruSelect tag with
  | some r => some r
  | none => m.tableSelect tag

/-- A datagram with the given tag arrives: a hit in the table becomes the most recently used
session, before anything about the datagram is checked. -/
def UDPMux.arrive (m : UDPMux) (tag : Tag) : UDPMux :=
  match m.mruSelect tag, m.tableSelect tag with
  | none, some r => { m with mruSession := some r.1 }
  | _, _ => m

/-- The operations on a multiplexer and its sessions. -/
inductive Op where
  | register (keys : UDPKeys)
  | ratchet (i : ℕ) (keys : UDPKeys)
  | close (i : ℕ)
  | datagram (tag : Tag)
  deriving DecidableEq

def UDPMux.step (m : UDPMux) : Op → UDPMux
  | .register keys => m.registerSession keys
  | .ratchet i keys => m.ratchetEpoch i keys
  | .close i => m.close i
  | .datagram tag => m.arrive tag

/-- The multiplexer after a sequence of operations. -/
def run (ops : List Op) : UDPMux := ops.foldl UDPMux.step newUDPMux

@[simp] theorem run_nil : run [] = newUDPMux := rfl

@[simp] theorem run_append_singleton (ops : List Op) (op : Op) :
    run (ops ++ [op]) = (run ops).step op := by
  simp [run]

/-! ## What an operation does -/

section Steps

variable (m : UDPMux)

theorem get_registerSession (keys : UDPKeys) (t : Tag) :
    (m.registerSession keys).table.get t =
      if t = keys.sessionTag then some m.sessions.length else m.table.get t :=
  ShardedMap.get_set _ _ _ _

theorem get_ratchetEpoch {i : ℕ} {s : UDPSession} (hs : m.sessions[i]? = some s) (keys : UDPKeys)
    (t : Tag) :
    (m.ratchetEpoch i keys).table.get t =
      if t = keys.sessionTag then some i else m.table.get t := by
  simp only [UDPMux.ratchetEpoch, hs]
  exact ShardedMap.get_set _ _ _ _

theorem sessions_ratchetEpoch {i : ℕ} {s : UDPSession} (hs : m.sessions[i]? = some s)
    (keys : UDPKeys) (j : ℕ) :
    (m.ratchetEpoch i keys).sessions[j]? =
      if j = i then some (s.ratchet keys) else m.sessions[j]? := by
  have hi : i < m.sessions.length := (List.getElem?_eq_some_iff.mp hs).1
  simp only [UDPMux.ratchetEpoch, hs, List.getElem?_set]
  by_cases hj : i = j
  · subst hj; simp [hi]
  · simp [hj, Ne.symm hj]

theorem ratchetEpoch_of_none {i : ℕ} (hs : m.sessions[i]? = none) (keys : UDPKeys) :
    m.ratchetEpoch i keys = m := by
  simp [UDPMux.ratchetEpoch, hs]

/-- `Close` does nothing to a session that is closed already. -/
theorem close_of_closed {i : ℕ} (h : ∀ s, m.sessions[i]? = some s → s.closed = true) :
    m.close i = m := by
  unfold UDPMux.close
  cases hs : m.sessions[i]? with
  | none => rfl
  | some s => simp [h s hs]

/-- The tags `Close` removes from the table. -/
def UDPSession.closes (s : UDPSession) (t : Tag) : Prop :=
  t = s.tag ∨ (t = s.prevTag ∧ s.prevTag ≠ .zero)

instance (s : UDPSession) (t : Tag) : Decidable (s.closes t) := by
  unfold UDPSession.closes; infer_instance

theorem get_close {i : ℕ} {s : UDPSession} (hs : m.sessions[i]? = some s) (ho : s.closed = false)
    (t : Tag) : (m.close i).table.get t = if s.closes t then none else m.table.get t := by
  simp only [UDPMux.close, hs, ho, Bool.false_eq_true, if_false, UDPSession.closes]
  by_cases hp : s.prevTag = .zero
  · simp [hp, UDPMux.unregisterSession, ShardedMap.get_delete]
  · simp only [ne_eq, hp, not_false_eq_true, if_true, UDPMux.unregisterSession,
      ShardedMap.get_delete, and_true]
    by_cases h1 : t = s.prevTag <;> by_cases h2 : t = s.tag <;> simp [h1, h2]

theorem sessions_close {i : ℕ} {s : UDPSession} (hs : m.sessions[i]? = some s)
    (ho : s.closed = false) (j : ℕ) :
    (m.close i).sessions[j]? = if j = i then some { s with closed := true } else m.sessions[j]? := by
  have hi : i < m.sessions.length := (List.getElem?_eq_some_iff.mp hs).1
  have hset : (m.close i).sessions = m.sessions.set i { s with closed := true } := by
    simp only [UDPMux.close, hs, ho, Bool.false_eq_true, if_false]
    split <;> rfl
  rw [hset, List.getElem?_set]
  by_cases hj : i = j
  · subst hj; simp [hi]
  · simp [hj, Ne.symm hj]

/-- The most recently used session survives `Close` only if it is another one. -/
theorem mruSession_close {i : ℕ} {s : UDPSession} (hs : m.sessions[i]? = some s)
    (ho : s.closed = false) {j : ℕ} (hj : (m.close i).mruSession = some j) :
    j ≠ i ∧ m.mruSession = some j := by
  simp only [UDPMux.close, hs, ho, Bool.false_eq_true, if_false] at hj
  have hone : (m.unregisterSession s.tag).mruSession = some j := by
    by_cases hp : s.prevTag = .zero
    · simpa [hp] using hj
    · simp only [ne_eq, hp, not_false_eq_true, if_true] at hj
      exact (Option.filter_eq_some_iff.mp hj).1
  obtain ⟨hm, htag⟩ := Option.filter_eq_some_iff.mp hone
  refine ⟨?_, hm⟩
  rintro rfl
  simp [hs] at htag

theorem arrive_table (tag : Tag) : (m.arrive tag).table = m.table := by
  unfold UDPMux.arrive; split <;> rfl

theorem arrive_sessions (tag : Tag) : (m.arrive tag).sessions = m.sessions := by
  unfold UDPMux.arrive; split <;> rfl

/-- A datagram makes the most recently used session one that the table knows, if it changes it. -/
theorem arrive_mruSession (tag : Tag) {i : ℕ} (h : (m.arrive tag).mruSession = some i) :
    m.mruSession = some i ∨ m.table.get tag = some i := by
  unfold UDPMux.arrive at h
  split at h
  · rename_i r _ ht
    simp only [UDPMux.tableSelect, Option.bind_eq_bind, Option.bind_eq_some_iff] at ht
    obtain ⟨j, hj, s, -, hr⟩ := ht
    simp only [Option.pure_def, Option.some.injEq] at hr
    subst hr
    exact .inr (hj.trans h)
  · exact .inl h

end Steps

end ObsidianVPN.Udp
