import Mathlib

/-!
# Sharded maps

A map split into `n` shards by a hash of the key. Whatever the hash, the shards behave as one map:
`get_empty`, `get_set` and `get_delete`.
-/

/-- A map from `κ` to `β`, cut into shards by `hash`. -/
structure ShardedMap (κ β : Type*) (n : ℕ) where
  hash : κ → Fin n
  shards : Fin n → AList fun _ : κ => β

namespace ShardedMap

variable {κ β : Type*} {n : ℕ}

def empty (hash : κ → Fin n) : ShardedMap κ β n := ⟨hash, fun _ => ∅⟩

variable [DecidableEq κ]

def get (m : ShardedMap κ β n) (k : κ) : Option β := (m.shards (m.hash k)).lookup k

def set (m : ShardedMap κ β n) (k : κ) (v : β) : ShardedMap κ β n :=
  { m with shards := Function.update m.shards (m.hash k) ((m.shards (m.hash k)).insert k v) }

def delete (m : ShardedMap κ β n) (k : κ) : ShardedMap κ β n :=
  { m with shards := Function.update m.shards (m.hash k) ((m.shards (m.hash k)).erase k) }

@[simp] theorem get_empty (hash : κ → Fin n) (k : κ) : (empty hash : ShardedMap κ β n).get k = none :=
  AList.lookup_empty k

/-- **Writing a key changes that key only.** -/
theorem get_set (m : ShardedMap κ β n) (k k' : κ) (v : β) :
    (m.set k v).get k' = if k' = k then some v else m.get k' := by
  by_cases hk : k' = k
  · subst hk; simp [get, set]
  · by_cases hh : m.hash k' = m.hash k
    · simp [get, set, hh, hk, AList.lookup_insert_ne hk]
    · simp [get, set, hh, hk]

/-- **Deleting a key changes that key only.** -/
theorem get_delete (m : ShardedMap κ β n) (k k' : κ) :
    (m.delete k).get k' = if k' = k then none else m.get k' := by
  by_cases hk : k' = k
  · subst hk; simp [get, delete]
  · by_cases hh : m.hash k' = m.hash k
    · simp [get, delete, hh, hk, AList.lookup_erase_ne hk]
    · simp [get, delete, hh, hk]

end ShardedMap
