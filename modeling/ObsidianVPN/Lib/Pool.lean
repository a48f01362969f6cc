import Mathlib

/-!
# Pooled buffers

Slices point into buffers; a pool keeps slices whose buffers may be used again. Who holds a slice may
write to its buffer and give it back. `Owned h held` says that each buffer is free or held once, so
that no two users share one.

* `Slice`, `Heap`, `Heap.read`, `Heap.write`: memory;
* `Heap.get`, `Heap.make`, `Heap.put`, `Heap.forget`: a pool that may hand out a free slice or a new
  one, and may forget free slices;
* **`Owned.get`**, `Owned.make`, `Owned.put`, `Owned.release`: how the ownership moves;
* `perm_flatMap_update`: the buffers of a family of users, when one of them changes;
* `mem_write_of_ne`, **`read_write_part`**: a write is seen through the slices of its own buffer.
-/

namespace Pool

variable {α : Type}

/-- A part of a buffer. -/
structure Slice where
  buf : ℕ
  off : ℕ
  len : ℕ
  deriving DecidableEq

/-- The contents of the buffers, the slices in the pool, and the number of buffers so far. -/
structure Heap (α : Type) where
  mem : ℕ → List α
  free : List Slice
  next : ℕ

namespace Heap

variable (h : Heap α)

/-- The room from the start of a slice to the end of its buffer. -/
def cap (s : Slice) : ℕ := (h.mem s.buf).length - s.off

def read (s : Slice) : List α := ((h.mem s.buf).drop s.off).take s.len

/-- The buffer with the data at the start of the slice. -/
def overwritten (s : Slice) (data : List α) : List α :=
  (h.mem s.buf).take s.off ++ data ++ (h.mem s.buf).drop (s.off + data.length)

def write (s : Slice) (data : List α) : Heap α :=
  { h with mem := Function.update h.mem s.buf (h.overwritten s data) }

/-- A new buffer. -/
def make (contents : List α) : Slice × Heap α :=
  (⟨h.next, 0, contents.length⟩,
    { h with mem := Function.update h.mem h.next contents, next := h.next + 1 })

/-- The data behind the start of the slice, or in a new buffer if there is no room. -/
def store (s : Slice) (data : List α) : Slice × Heap α :=
  if data.length ≤ h.cap s then (⟨s.buf, s.off, data.length⟩, h.write s data) else h.make data

/-- The `k`-th free slice, or a new buffer. -/
def get (contents : List α) : Option ℕ → Option (Slice × Heap α)
  | none => some (h.make contents)
  | some k => h.free[k]?.map fun s => (s, { h with free := h.free.eraseIdx k })

def put (s : Slice) : Heap α := { h with free := s :: h.free }

/-- The pool loses a slice. -/
def forget (k : ℕ) : Heap α := { h with free := h.free.eraseIdx k }

end Heap

/-- **Each buffer is free or held, and only once.** -/
structure Owned (h : Heap α) (held : List ℕ) : Prop where
  nodup : (h.free.map Slice.buf ++ held).Nodup
  bound : ∀ b ∈ h.free.map Slice.buf ++ held, b < h.next
  fits : ∀ s ∈ h.free, s.off ≤ (h.mem s.buf).length

variable {h h' : Heap α} {held held' : List ℕ} {s t : Slice} {contents : List α}

theorem owned_empty : Owned (⟨fun _ => [], [], 0⟩ : Heap α) [] := ⟨List.nodup_nil, nofun, nofun⟩

theorem Owned.perm (ho : Owned h held) (hperm : held.Perm held') : Owned h held' where
  nodup := (hperm.append_left _).nodup ho.nodup
  bound b hb := ho.bound b ((hperm.append_left _).mem_iff.mpr hb)
  fits := ho.fits

/-- A held buffer is not free. -/
theorem Owned.ne_of_free (ho : Owned h held) {b : ℕ} (hb : b ∈ held) (hs : s ∈ h.free) :
    s.buf ≠ b := by
  rintro rfl
  exact (List.nodup_append.mp ho.nodup).2.2 s.buf (List.mem_map_of_mem hs) s.buf hb rfl

/-- A held buffer is held once. -/
theorem Owned.not_mem {b : ℕ} (ho : Owned h (b :: held)) : b ∉ held :=
  (List.nodup_cons.mp (List.nodup_append.mp ho.nodup).2.1).1

theorem Owned.write (ho : Owned h held) (hs : s.buf ∈ held) (data : List α) :
    Owned (h.write s data) held where
  nodup := ho.nodup
  bound := ho.bound
  fits t ht := by
    have hne := ho.ne_of_free hs ht
    simp only [Heap.write, Function.update_of_ne hne]
    exact ho.fits t ht

theorem Owned.put (ho : Owned h (s.buf :: held)) (hs : s.off ≤ (h.mem s.buf).length) :
    Owned (h.put s) held := by
  have hperm : ((h.put s).free.map Slice.buf ++ held).Perm (h.free.map Slice.buf ++ s.buf :: held) :=
    List.perm_middle.symm
  refine ⟨hperm.nodup_iff.mpr ho.nodup, fun b hb => ho.bound b (hperm.mem_iff.mp hb), fun t ht => ?_⟩
  rcases List.mem_cons.mp ht with rfl | ht
  · exact hs
  · exact ho.fits t ht

/-- A buffer that is not given back. -/
theorem Owned.release {b : ℕ} (ho : Owned h (b :: held)) : Owned h held := by
  have hsub : (h.free.map Slice.buf ++ held).Sublist (h.free.map Slice.buf ++ b :: held) :=
    (List.Sublist.refl _).append (List.sublist_cons_self b held)
  exact ⟨hsub.nodup ho.nodup, fun c hc => ho.bound c (hsub.subset hc), ho.fits⟩

theorem Owned.forget (ho : Owned h held) (k : ℕ) : Owned (h.forget k) held := by
  have hsub : ((h.forget k).free.map Slice.buf ++ held).Sublist (h.free.map Slice.buf ++ held) :=
    ((List.eraseIdx_sublist h.free k).map _).append (List.Sublist.refl _)
  exact ⟨hsub.nodup ho.nodup, fun c hc => ho.bound c (hsub.subset hc),
    fun t ht => ho.fits t (List.mem_of_mem_eraseIdx ht)⟩

theorem Owned.make (ho : Owned h held) (contents : List α) :
    Owned (h.make contents).2 ((h.make contents).1.buf :: held) := by
  have hfresh : h.next ∉ h.free.map Slice.buf ++ held := fun hmem =>
    absurd (ho.bound _ hmem) (lt_irrefl _)
  have hperm : (h.free.map Slice.buf ++ h.next :: held).Perm
      (h.next :: (h.free.map Slice.buf ++ held)) := List.perm_middle
  refine ⟨hperm.nodup_iff.mpr (List.nodup_cons.mpr ⟨hfresh, ho.nodup⟩), fun b hb => ?_,
    fun t ht => ?_⟩
  · rcases List.mem_cons.mp (hperm.mem_iff.mp hb) with rfl | hb
    · exact Nat.lt_succ_self _
    · exact (ho.bound b hb).trans (Nat.lt_succ_self _)
  · have hne : t.buf ≠ h.next :=
      (ho.bound _ (List.mem_append_left _ (List.mem_map_of_mem ht))).ne
    simp only [Heap.make, Function.update_of_ne hne]
    exact ho.fits t ht

theorem Owned.mem_make (ho : Owned h held) (contents : List α) {b : ℕ} (hb : b ∈ held) :
    (h.make contents).2.mem b = h.mem b :=
  Function.update_of_ne (ho.bound b (List.mem_append_right _ hb)).ne _ _

/-- **What the pool hands out belongs to nobody else**, and the other buffers stay as they are. -/
theorem Owned.get (ho : Owned h held) {choice : Option ℕ}
    (hget : h.get contents choice = some (s, h')) :
    Owned h' (s.buf :: held) ∧ s.off ≤ (h'.mem s.buf).length ∧
      ∀ b ∈ held, h'.mem b = h.mem b := by
  cases choice with
  | none =>
    obtain ⟨rfl, rfl⟩ := Prod.mk.inj (Option.some.inj hget)
    exact ⟨ho.make contents, Nat.zero_le _, fun b hb => ho.mem_make contents hb⟩
  | some k =>
    obtain ⟨t, ht, heq⟩ := Option.map_eq_some_iff.mp hget
    obtain ⟨rfl, rfl⟩ := Prod.mk.inj heq
    obtain ⟨hk, rfl⟩ := List.getElem?_eq_some_iff.mp ht
    have hperm : ((h.free.eraseIdx k).map Slice.buf ++ h.free[k].buf :: held).Perm
        (h.free.map Slice.buf ++ held) :=
      List.perm_middle.trans
        (((List.getElem_cons_eraseIdx_perm hk).map Slice.buf).append_right held)
    exact ⟨⟨hperm.nodup_iff.mpr ho.nodup, fun b hb => ho.bound b (hperm.mem_iff.mp hb),
      fun t ht => ho.fits t (List.mem_of_mem_eraseIdx ht)⟩, ho.fits _ (List.getElem_mem hk),
      fun _ _ => rfl⟩

/-- What one of several users hands over, or gets. -/
theorem perm_flatMap_update {n i : ℕ} (hi : i < n) {f g : ℕ → List ℕ} (hg : ∀ j, j ≠ i → g j = f j)
    {a b : List ℕ} (hperm : (a ++ f i).Perm (b ++ g i)) :
    (a ++ (List.range n).flatMap f).Perm (b ++ (List.range n).flatMap g) := by
  have hrest : ((List.range n).erase i).flatMap g = ((List.range n).erase i).flatMap f := by
    refine List.flatMap_congr fun j hj => hg j ?_
    rintro rfl
    exact (List.nodup_range.not_mem_erase) hj
  have hsplit : ∀ k : ℕ → List ℕ, ((List.range n).flatMap k).Perm
      (k i ++ ((List.range n).erase i).flatMap k) := fun k =>
    (List.perm_cons_erase (List.mem_range.mpr hi)).flatMap_right k
  have hf := (hsplit f).append_left a
  have hg' := (hsplit g).append_left b
  rw [← List.append_assoc] at hf hg'
  rw [hrest] at hg'
  exact hf.trans ((hperm.append_right _).trans hg'.symm)

/-! ## What is read -/

theorem read_congr (hmem : h'.mem t.buf = h.mem t.buf) : h'.read t = h.read t := by
  simp only [Heap.read, hmem]

theorem mem_write_of_ne (h : Heap α) {b : ℕ} (hne : b ≠ s.buf) (data : List α) :
    (h.write s data).mem b = h.mem b := Function.update_of_ne hne _ _

theorem mem_write_self (h : Heap α) (data : List α) :
    (h.write s data).mem s.buf = h.overwritten s data := Function.update_self ..

theorem length_overwritten (h : Heap α) (hoff : s.off ≤ (h.mem s.buf).length) (data : List α) :
    s.off + data.length ≤ (h.overwritten s data).length := by
  simp only [Heap.overwritten, List.length_append, List.length_take, List.length_drop]
  omega

/-- **What has been written is read back**, also through a part of the slice. -/
theorem read_write_part (h : Heap α) (hoff : s.off ≤ (h.mem s.buf).length) (data : List α)
    {off len : ℕ} (hlen : off + len ≤ data.length) :
    (h.write s data).read ⟨s.buf, s.off + off, len⟩ = (data.drop off).take len := by
  simp only [Heap.read, mem_write_self, Heap.overwritten, List.append_assoc]
  have htake : ((h.mem s.buf).take s.off).length = s.off := List.length_take_of_le hoff
  rw [← List.drop_drop, List.drop_left' htake, List.drop_append_of_le_length (by omega),
    List.take_append_of_le_length (by rw [List.length_drop]; omega)]

/-- **Storing data touches no buffer of anybody else.** -/
theorem Owned.store (ho : Owned h (s.buf :: held)) (hs : s.off ≤ (h.mem s.buf).length)
    {data : List α} (hstore : h.store s data = (t, h')) :
    Owned h' (t.buf :: held) ∧ t.len = data.length ∧
      t.off + data.length ≤ (h'.mem t.buf).length ∧ (∀ b ∈ held, h'.mem b = h.mem b) ∧
      ∀ off len, off + len ≤ data.length →
        h'.read ⟨t.buf, t.off + off, len⟩ = (data.drop off).take len := by
  unfold Heap.store at hstore
  split at hstore
  · obtain ⟨rfl, rfl⟩ := Prod.mk.inj hstore
    refine ⟨ho.write List.mem_cons_self data, rfl, ?_, fun b hb => ?_, fun off len hlen => ?_⟩
    · rw [mem_write_self]
      exact length_overwritten h hs data
    · refine mem_write_of_ne h ?_ data
      rintro rfl
      exact ho.not_mem hb
    · exact read_write_part h hs data hlen
  · obtain ⟨rfl, rfl⟩ := Prod.mk.inj hstore
    refine ⟨ho.release.make data, rfl, ?_, fun b hb => ho.release.mem_make data hb,
      fun off len _ => ?_⟩
    · simp
    · simp [Heap.read]

end Pool
