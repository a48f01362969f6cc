import ObsidianVPN.Server.Revocation

/-!
# A revocation file that is replaced

The key server writes one list after another into the revocation file, and handshakes look it up in
between. Every list is well formed and has a later modification time than those before it.

* `FileEvent`, `Watched.run`: the file is replaced, or the store is asked;
* `loadedVersions`: the lists that were in the file at startup or at a look-up;
* `Follows`: the store holds the static keys and those of every list it has loaded;
  `Follows.run`: it does so after any events;
* **`isRevoked_version_iff`**: a look-up answers for the list in the file unless it refuses a key
  that an earlier list had. `reload` merges the new keys with all those it held before.
-/

namespace ObsidianVPN.Server

open ByteStr GoString

/-! ## The file and the store -/

/-- A list written into the file. -/
structure Version where
  modTime : ℤ
  values : List Bytes

/-- The file with a list in it, or missing. -/
def fileState : Option Version → FileState
  | none => .missing
  | some v => .file v.modTime (.parsed v.values)

inductive FileEvent where
  | write (v : Version)
  | call (key : Bytes)

structure Watched where
  store : Option RevocationStore
  file : Option Version

def Watched.step (w : Watched) : FileEvent → Watched
  | .write v => { w with file := some v }
  | .call key => { w with store := (isRevoked w.store key (fileState w.file)).2 }

def Watched.run (w : Watched) (events : List FileEvent) : Watched := events.foldl Watched.step w

/-- The server after startup, with the file as it was then. -/
def Watched.start (static : List Bytes) (path : String) (first : Option Version) : Watched :=
  ⟨startup static path (fileState first), first⟩

/-- The key is one of the entries. -/
def Listed (values : List Bytes) (k : Bytes) : Prop := ∃ value ∈ values, hexDecode value = some k

/-- The lists that the events write. -/
def writtenVersions (events : List FileEvent) : List Version :=
  events.filterMap fun
    | .write v => some v
    | .call _ => none

/-- The lists that are in the file at the calls among the events, when it starts as `file`. -/
def calledVersions (file : Option Version) : List FileEvent → List Version
  | [] => []
  | .write v :: events => calledVersions (some v) events
  | .call _ :: events => file.toList ++ calledVersions file events

/-- The lists that were in the file at startup or at a call. -/
def loadedVersions (first : Option Version) (events : List FileEvent) : List Version :=
  first.toList ++ calledVersions first events

/-! ## One look-up -/

theorem mem_addRevokedKeys {dst values keys : List Bytes} (h : addRevokedKeys dst values = .ok keys)
    (k : Bytes) : k ∈ keys ↔ k ∈ dst ∨ Listed values k := by
  induction values generalizing dst with
  | nil =>
    cases h
    simp [Listed]
  | cons value values ih =>
    rw [addRevokedKeys] at h
    split at h
    · rename_i decoded hdecoded
      split at h
      · cases h
      · rw [ih h, List.mem_cons]
        simp only [Listed, List.exists_mem_cons_iff, hdecoded, Option.some.injEq]
        rw [or_comm (a := k = decoded), or_assoc, eq_comm]
    · cases h

theorem truncateSecond_le (t : ℤ) : truncateSecond t ≤ t := by
  unfold truncateSecond
  omega

/-- Reading a well-formed list adds its keys to those the store held. -/
theorem reload_version {r : RevocationStore} (hpath : r.path ≠ "") (force : Bool) {v : Version}
    (hv : ∀ value ∈ v.values, ValidKey value) (hload : force = true ∨ r.modTime < v.modTime) :
    ∃ keys, r.reload force (fileState (some v)) =
        .ok { r with keys := keys, modTime := truncateSecond v.modTime, initialized := true } ∧
      ∀ k, k ∈ keys ↔ k ∈ r.keys ∨ Listed v.values k := by
  obtain ⟨keys, hok, -⟩ := addRevokedKeys_ok [] hv
  have hgo : ¬(¬force = true ∧ ¬r.modTime < v.modTime) := by tauto
  refine ⟨keys ++ r.keys, ?_, fun k => ?_⟩
  · simp only [RevocationStore.reload, fileState, hpath, if_false, if_neg hgo, hok]
  · rw [List.mem_append, mem_addRevokedKeys hok, or_comm]
    simp

/-! ## Runs -/

/-- The store holds the static keys and those of the lists in `seen`, the list in the file is one of
these or newer than the store, and so are all lists still to come. -/
structure Follows (static : List Bytes) (seen : List Version) (w : Watched) (coming : List Version) :
    Prop where
  store : ∃ r, w.store = some r ∧ r.path ≠ "" ∧
    (∀ k, k ∈ r.keys ↔ Listed static k ∨ ∃ u ∈ seen, Listed u.values k) ∧
    (∀ v, w.file = some v → v ∈ seen ∨ r.modTime < v.modTime) ∧
    ∀ v ∈ coming, r.modTime < v.modTime
  valid : ∀ v ∈ w.file.toList ++ coming, ∀ value ∈ v.values, ValidKey value
  increasing : (w.file.toList ++ coming).Pairwise fun u v => u.modTime < v.modTime

/-- What a look-up does while the list `v` is in the file: afterwards the store holds the keys of `v`
as well, and its time is not later than that of a list still to come. -/
theorem reload_follows {static : List Bytes} {seen coming : List Version} {r : RevocationStore}
    {v : Version} (hpath : r.path ≠ "") (hv : ∀ value ∈ v.values, ValidKey value)
    (hkeys : ∀ k, k ∈ r.keys ↔ Listed static k ∨ ∃ u ∈ seen, Listed u.values k)
    (hcur : v ∈ seen ∨ r.modTime < v.modTime) (hcoming : ∀ u ∈ coming, r.modTime < u.modTime)
    (hlater : ∀ u ∈ coming, v.modTime < u.modTime) :
    ∃ r', r.reload false (fileState (some v)) = .ok r' ∧ r'.path ≠ "" ∧
      (∀ k, k ∈ r'.keys ↔ Listed static k ∨ ∃ u ∈ seen ++ [v], Listed u.values k) ∧
      ∀ u ∈ coming, r'.modTime < u.modTime := by
  by_cases hnew : r.modTime < v.modTime
  · obtain ⟨keys, hok, hmem⟩ := reload_version hpath false hv (.inr hnew)
    refine ⟨_, hok, hpath, fun k => ?_, fun u hu => ?_⟩
    · rw [hmem, hkeys, or_assoc]
      simp [or_and_right, exists_or]
    · exact (truncateSecond_le v.modTime).trans_lt (hlater u hu)
  · have hseen : v ∈ seen := hcur.resolve_right hnew
    refine ⟨r, by simp [RevocationStore.reload, fileState, hpath, hnew], hpath, fun k => ?_, hcoming⟩
    rw [hkeys]
    refine or_congr_right ⟨?_, ?_⟩
    · rintro ⟨u, hu, hk⟩
      exact ⟨u, List.mem_append_left _ hu, hk⟩
    · rintro ⟨u, hu, hk⟩
      rcases List.mem_append.mp hu with hu | hu
      · exact ⟨u, hu, hk⟩
      · exact ⟨v, hseen, List.mem_singleton.mp hu ▸ hk⟩

section

variable {static : List Bytes} {seen coming : List Version} {w : Watched}

/-- The answer of a look-up while the list `v` is in the file. -/
theorem Follows.isRevoked_iff (h : Follows static seen w coming) {v : Version}
    (hfile : w.file = some v) (key : Bytes) :
    (isRevoked w.store key (fileState w.file)).1 = true ↔
      Listed static key ∨ ∃ u ∈ seen ++ [v], Listed u.values key := by
  obtain ⟨⟨r, hr, hpath, hkeys, hcur, hcoming⟩, hvalid, hinc⟩ := h
  rw [hfile] at hvalid hinc ⊢
  obtain ⟨r', hreload, -, hkeys', -⟩ := reload_follows hpath
    (hvalid v List.mem_cons_self) hkeys (hcur v hfile) hcoming (List.pairwise_cons.mp hinc).1
  simp [isRevoked, hr, hreload, hkeys']

/-- **A call.** -/
theorem Follows.call (h : Follows static seen w coming) (key : Bytes) :
    Follows static (seen ++ w.file.toList) (w.step (.call key)) coming := by
  obtain ⟨⟨r, hr, hpath, hkeys, hcur, hcoming⟩, hvalid, hinc⟩ := h
  refine ⟨?_, hvalid, hinc⟩
  cases hfile : w.file with
  | none =>
    -- the look-up reports an error and leaves the store as it is
    refine ⟨r, ?_, hpath, by simpa using hkeys, by simp [Watched.step, hfile], hcoming⟩
    simp [Watched.step, isRevoked, hr, hfile, fileState, RevocationStore.reload, hpath]
  | some v =>
    rw [hfile] at hvalid hinc
    obtain ⟨r', hreload, hpath', hkeys', hcoming'⟩ := reload_follows hpath
      (hvalid v List.mem_cons_self) hkeys (hcur v hfile) hcoming (List.pairwise_cons.mp hinc).1
    refine ⟨r', by simp [Watched.step, isRevoked, hr, hfile, hreload], hpath', hkeys', ?_, hcoming'⟩
    intro u hu
    obtain rfl : v = u := Option.some.inj (hfile.symm.trans hu)
    exact .inl (List.mem_append_right _ List.mem_cons_self)

/-- **A replacement of the file.** -/
theorem Follows.write {v : Version} (h : Follows static seen w (v :: coming)) :
    Follows static seen (w.step (.write v)) coming := by
  obtain ⟨⟨r, hr, hpath, hkeys, -, hcoming⟩, hvalid, hinc⟩ := h
  have hsub : (v :: coming).Sublist (w.file.toList ++ v :: coming) := List.sublist_append_right _ _
  refine ⟨⟨r, hr, hpath, hkeys, ?_, fun u hu => hcoming u (List.mem_cons_of_mem _ hu)⟩,
    fun u hu => hvalid u (hsub.subset hu), hinc.sublist hsub⟩
  intro u hu
  cases hu
  exact .inr (hcoming v List.mem_cons_self)

/-- **Any events.** -/
theorem Follows.run (events : List FileEvent) (h : Follows static seen w (writtenVersions events)) :
    Follows static (seen ++ calledVersions w.file events) (w.run events) [] := by
  induction events generalizing w seen with
  | nil =>
    rw [calledVersions, List.append_nil]
    exact h
  | cons e events ih =>
    cases e with
    | write v => exact ih h.write
    | call key =>
      rw [calledVersions, ← List.append_assoc]
      exact ih (h.call key)

end

/-- The server starts with a store that follows the file. -/
theorem follows_start {static : List Bytes} (hstatic : ∀ value ∈ static, ValidKey value)
    {path : String} (hpath : path ≠ "") {first : Option Version} {coming : List Version}
    (hvalid : ∀ v ∈ first.toList ++ coming, ∀ value ∈ v.values, ValidKey value)
    (hinc : (first.toList ++ coming).Pairwise fun u v => u.modTime < v.modTime)
    (hzero : first = none → ∀ v ∈ coming, zeroTime < v.modTime) :
    Follows static first.toList (.start static path first) coming := by
  refine ⟨?_, hvalid, hinc⟩
  obtain ⟨keys, hok, -⟩ := addRevokedKeys_ok [] hstatic
  have hmem : ∀ k, k ∈ keys ↔ Listed static k := fun k => by
    rw [mem_addRevokedKeys hok]
    simp
  cases first with
  | none =>
    refine ⟨⟨path, keys, zeroTime, false⟩, ?_, hpath, by simpa using hmem, ?_, hzero rfl⟩
    · simp [Watched.start, startup, newRevocationStore, hok, hpath, fileState,
        RevocationStore.reload]
    · intro v hv
      cases hv
  | some v =>
    obtain ⟨keys', hload, hmem'⟩ := reload_version (r := ⟨path, keys, zeroTime, false⟩) hpath true
      (hvalid v List.mem_cons_self) (.inl rfl)
    refine ⟨⟨path, keys', truncateSecond v.modTime, true⟩, ?_, hpath, fun k => ?_, ?_, fun u hu => ?_⟩
    · simp only [Watched.start, startup, newRevocationStore, hok, ne_eq, hpath, not_false_eq_true,
        if_true, hload]
    · rw [hmem' k, hmem k]
      simp
    · intro u hu
      cases hu
      exact .inl List.mem_cons_self
    · exact (truncateSecond_le v.modTime).trans_lt ((List.pairwise_cons.mp hinc).1 u hu)

/-! ## What a look-up answers -/

/-- **When a look-up answers for the list in the file.** For every static list, every file that is
missing at startup or holds a list, every sequence of replacements and calls since, and every key
looked up while the list `v` is in the file: exactly when the key is static or in `v`, or was in no
list that the store has loaded. -/
theorem isRevoked_version_iff (static : List Bytes) (hstatic : ∀ value ∈ static, ValidKey value)
    (path : String) (hpath : path ≠ "") (first : Option Version) (events : List FileEvent)
    (hvalid : ∀ v ∈ first.toList ++ writtenVersions events, ∀ value ∈ v.values, ValidKey value)
    (hinc : (first.toList ++ writtenVersions events).Pairwise fun u v => u.modTime < v.modTime)
    (hzero : first = none → ∀ v ∈ writtenVersions events, zeroTime < v.modTime) (v : Version)
    (hfile : ((Watched.start static path first).run events).file = some v) (k : Bytes) :
    ((isRevoked ((Watched.start static path first).run events).store k (fileState (some v))).1 = true ↔
        Listed static k ∨ Listed v.values k) ↔
      Listed static k ∨ Listed v.values k ∨
        ∀ u ∈ loadedVersions first events, ¬Listed u.values k := by
  have hrun : Follows static (loadedVersions first events) ((Watched.start static path first).run events)
      [] := (follows_start hstatic hpath hvalid hinc hzero).run events
  have hans := hrun.isRevoked_iff hfile k
  rw [hfile] at hans
  rw [hans]
  have hsplit : (∃ u ∈ loadedVersions first events ++ [v], Listed u.values k) ↔
      (∃ u ∈ loadedVersions first events, Listed u.values k) ∨ Listed v.values k := by
    simp [or_and_right, exists_or]
  have hnone : (∀ u ∈ loadedVersions first events, ¬Listed u.values k) ↔
      ¬∃ u ∈ loadedVersions first events, Listed u.values k := by
    simp
  rw [hsplit, hnone]
  by_cases hs : Listed static k
  · simp [hs]
  by_cases hv : Listed v.values k
  · simp [hv]
  simp only [hs, hv, false_or, or_false, iff_false]

/-- A key in the first list, which the second one no longer has, stays revoked. -/
theorem isRevoked_removed_key :
    hexDecode sampleHex = some (List.replicate 32 0xaa) ∧
    (isRevoked ((Watched.start [] "revoked.json" (some ⟨1000000000, [sampleHex]⟩)).run
      [.write ⟨2000000000, []⟩]).store (List.replicate 32 0xaa)
        (fileState (some ⟨2000000000, []⟩))).1 = true := by
  decide +kernel

/-- A key that is written into the file later becomes revoked. -/
theorem isRevoked_added_key :
    (isRevoked ((Watched.start [] "revoked.json" (some ⟨1000000000, []⟩)).run
      [.call [], .write ⟨1000000001, [sampleHex]⟩]).store (List.replicate 32 0xaa)
        (fileState (some ⟨1000000001, [sampleHex]⟩))).1 = true := by
  have hdecode : hexDecode sampleHex = some (List.replicate 32 0xaa) := by decide +kernel
  have hlisted : Listed [sampleHex] (List.replicate 32 0xaa) := ⟨_, List.mem_cons_self, hdecode⟩
  have hv : ValidKey sampleHex := ⟨_, hdecode, by decide⟩
  have hiff := (isRevoked_version_iff [] (by simp) "revoked.json" (by decide)
    (some ⟨1000000000, []⟩) [.call [], .write ⟨1000000001, [sampleHex]⟩]
    (by simpa [writtenVersions] using hv) (by simp [writtenVersions]) (by simp) _ rfl
    (List.replicate 32 0xaa)).mpr (.inr (.inl hlisted))
  exact hiff.mpr (.inr hlisted)

end ObsidianVPN.Server
