import ObsidianVPN.Crypto.Primitives

/-!
# The revocation store

The server refuses clients on a static list and on a list kept in a file, which is read at startup
and again whenever it has changed. What is in the file is an input (`FileState`): every look-up of
the store sees the file as it is at that time.

* `newRevocationStore`, `reload`, `isRevoked`: the store; `startup`: what `main` makes of it;
* `reload_cases`: what a look-up does to a store;
* `afterAttempts_cases`: the store after any sequence of handshakes;
* **`isRevoked_static_iff`**: a statically revoked client is refused exactly when the static list
  is well formed and the file, if there is one, was readable at startup, or was missing and has
  been read since or is not broken now. In all other cases `main` runs on without a store, or the
  store reports its errors as "not revoked".
-/

namespace ObsidianVPN.Server

open ByteStr GoString

/-! ## The store -/

/-- What `os.ReadFile` and `json.Unmarshal` make of the file. -/
inductive Content where
  | unreadable (err : String)
  | malformed (err : String)
  | parsed (revokedClients : List Bytes)

/-- The revocation file at one moment. Times are in nanoseconds since the zero time of Go. -/
inductive FileState where
  | missing
  | statError (err : String)
  | file (modTime : ℤ) (content : Content)

structure RevocationStore where
  path : String
  keys : List Bytes
  modTime : ℤ
  initialized : Bool

/-- The zero value of `time.Time`. -/
def zeroTime : ℤ := 0

/-- `Time.Truncate(time.Second)`. -/
def truncateSecond (t : ℤ) : ℤ := t - t % 10 ^ 9

/-- `addRevokedKeys`; the map of keys is a list. -/
def addRevokedKeys (dst : List Bytes) : List Bytes → Except String (List Bytes)
  | [] => .ok dst
  | value :: values =>
    match hexDecode value with
    | some decoded =>
      if decoded.length ≠ keySize then .error "invalid revoked client key"
      else addRevokedKeys (decoded :: dst) values
    | none => .error "invalid revoked client key"

def RevocationStore.reload (r : RevocationStore) (force : Bool) (f : FileState) :
    Except String RevocationStore :=
  if r.path = "" then .ok r
  else
    match f with
    | .missing => if force then .ok r else .error s!"revocation file {r.path.quote} is missing"
    | .statError err => .error err
    | .file modTime content =>
      if ¬force ∧ ¬r.modTime < modTime then .ok r
      else
        match content with
        | .unreadable err => .error err
        | .malformed err => .error err
        | .parsed revokedClients =>
          match addRevokedKeys [] revokedClients with
          | .error err => .error err
          | .ok keys => .ok { r with
              keys := keys ++ r.keys
              modTime := truncateSecond modTime
              initialized := true }

def newRevocationStore (static : List Bytes) (path : String) (f : FileState) :
    Except String RevocationStore :=
  match addRevokedKeys [] static with
  | .error err => .error err
  | .ok keys =>
    let r : RevocationStore := ⟨path, keys, zeroTime, false⟩
    if path ≠ "" then r.reload true f else .ok r

/-- `main` keeps the store that `newRevocationStore` returns and does not look at the error: after
an error the store is a nil pointer. -/
def startup (static : List Bytes) (path : String) (f : FileState) : Option RevocationStore :=
  match newRevocationStore static path f with
  | .ok r => some r
  | .error _ => none

/-- `IsRevoked`. -/
def isRevoked (r : Option RevocationStore) (key : Bytes) (f : FileState) :
    Bool × Option RevocationStore :=
  match r with
  | none => (false, none)
  | some r =>
    match r.reload false f with
    | .error _ => (if ¬r.initialized then false else true, some r)
    | .ok r => (decide (key ∈ r.keys), some r)

/-- A handshake that has come to the revocation check: the client's key and the file. -/
structure Attempt where
  key : Bytes
  file : FileState

/-- The store after a sequence of handshakes. -/
def afterAttempts (r : Option RevocationStore) (l : List Attempt) : Option RevocationStore :=
  l.foldl (fun r a => (isRevoked r a.key a.file).2) r

/-! ## What the file does to the store -/

/-- A well-formed entry of a list of revoked clients. -/
def ValidKey (value : Bytes) : Prop := ∃ k, hexDecode value = some k ∧ k.length = keySize

/-- The file holds a well-formed list. -/
def Content.Valid : Content → Prop
  | .parsed revokedClients => ∀ value ∈ revokedClients, ValidKey value
  | _ => False

/-- The file is there and holds a well-formed list. -/
def FileState.Readable : FileState → Prop
  | .file _ content => content.Valid
  | _ => False

/-- The file was changed after `since` and holds a well-formed list. -/
def FileState.LoadsAfter (since : ℤ) : FileState → Prop
  | .file modTime content => since < modTime ∧ content.Valid
  | _ => False

/-- The file cannot be examined, or was changed after `since` and does not hold a well-formed
list. -/
def FileState.BrokenAfter (since : ℤ) : FileState → Prop
  | .file modTime content => since < modTime ∧ ¬content.Valid
  | _ => True

theorem addRevokedKeys_ok (dst : List Bytes) {values : List Bytes}
    (h : ∀ value ∈ values, ValidKey value) :
    ∃ keys, addRevokedKeys dst values = .ok keys ∧ (∀ k ∈ dst, k ∈ keys) ∧
      ∀ value ∈ values, ∀ k, hexDecode value = some k → k ∈ keys := by
  induction values generalizing dst with
  | nil => exact ⟨dst, rfl, fun _ h => h, by simp⟩
  | cons value values ih =>
    obtain ⟨k, hk, hlen⟩ := h value List.mem_cons_self
    obtain ⟨keys, hok, hdst, hall⟩ := ih (k :: dst)
      fun v hv => h v (List.mem_cons_of_mem _ hv)
    refine ⟨keys, by simp [addRevokedKeys, hk, hlen, hok],
      fun k' hk' => hdst k' (List.mem_cons_of_mem _ hk'), ?_⟩
    rintro v hv k' hk'
    rcases List.mem_cons.mp hv with rfl | hv
    · rw [hk] at hk'
      exact hdst k' (by simp [Option.some.inj hk'])
    · exact hall v hv k' hk'

theorem addRevokedKeys_error (dst : List Bytes) {values : List Bytes}
    (h : ¬∀ value ∈ values, ValidKey value) :
    ∃ err, addRevokedKeys dst values = .error err := by
  induction values generalizing dst with
  | nil => simp at h
  | cons value values ih =>
    rw [addRevokedKeys]
    cases hk : hexDecode value with
    | none => exact ⟨_, rfl⟩
    | some k =>
      by_cases hlen : k.length = keySize
      · simp only [hlen, ne_eq, not_true_eq_false, if_false]
        refine ih (k :: dst) fun hall => h fun v hv => ?_
        rcases List.mem_cons.mp hv with rfl | hv
        · exact ⟨k, hk, hlen⟩
        · exact hall v hv
      · exact ⟨"invalid revoked client key", by simp [hlen]⟩

theorem load_cases (r : RevocationStore) (force : Bool) (modTime : ℤ) (content : Content)
    (hpath : r.path ≠ "") (hload : force = true ∨ r.modTime < modTime) :
    (content.Valid ∧ ∃ keys t, r.reload force (.file modTime content) =
      .ok { r with keys := keys ++ r.keys, modTime := t, initialized := true }) ∨
    (¬content.Valid ∧ ∃ err, r.reload force (.file modTime content) = .error err) := by
  have hgo : ¬(¬force = true ∧ ¬r.modTime < modTime) := by tauto
  unfold RevocationStore.reload
  cases content with
  | unreadable err => exact .inr ⟨fun h => h, err, by simp only [hpath, if_false, if_neg hgo]⟩
  | malformed err => exact .inr ⟨fun h => h, err, by simp only [hpath, if_false, if_neg hgo]⟩
  | parsed values =>
    by_cases hv : ∀ value ∈ values, ValidKey value
    · obtain ⟨keys, hok, -, -⟩ := addRevokedKeys_ok [] hv
      exact .inl ⟨hv, keys, truncateSecond modTime, by
        simp only [hpath, if_false, if_neg hgo, hok]⟩
    · obtain ⟨err, herr⟩ := addRevokedKeys_error [] hv
      exact .inr ⟨hv, err, by simp only [hpath, if_false, if_neg hgo, herr]⟩

/-- **What a look-up does to a store with a file**: it fails when the file is broken, reads the
file when it has changed, and does nothing otherwise. -/
theorem reload_cases (r : RevocationStore) (f : FileState) (hpath : r.path ≠ "") :
    (f.BrokenAfter r.modTime ∧ ∃ err, r.reload false f = .error err) ∨
    (¬f.BrokenAfter r.modTime ∧ f.LoadsAfter r.modTime ∧ ∃ keys t, r.reload false f =
      .ok { r with keys := keys ++ r.keys, modTime := t, initialized := true }) ∨
    (¬f.BrokenAfter r.modTime ∧ ¬f.LoadsAfter r.modTime ∧ r.reload false f = .ok r) := by
  cases f with
  | missing => exact .inl ⟨trivial, _, by simp [RevocationStore.reload, hpath]; rfl⟩
  | statError err => exact .inl ⟨trivial, err, by simp [RevocationStore.reload, hpath]⟩
  | file modTime content =>
    by_cases hmod : r.modTime < modTime
    · rcases load_cases r false modTime content hpath (.inr hmod) with
        ⟨hv, keys, t, hok⟩ | ⟨hv, err, herr⟩
      · exact .inr (.inl ⟨fun h => h.2 hv, ⟨hmod, hv⟩, keys, t, hok⟩)
      · exact .inl ⟨⟨hmod, hv⟩, err, herr⟩
    · exact .inr (.inr ⟨fun h => hmod h.1, fun h => hmod h.1, by
        simp [RevocationStore.reload, hmod]⟩)

/-! ## Sequences of handshakes -/

/-- A store that holds `k`, and that has no modification time before it has read the file. -/
structure RevocationStore.Holds (r : RevocationStore) (k : Bytes) : Prop where
  mem : k ∈ r.keys
  fresh : r.initialized = false → r.modTime = zeroTime

theorem isRevoked_holds {r : RevocationStore} {k : Bytes} (hr : r.Holds k) (hpath : r.path ≠ "")
    (key : Bytes) (f : FileState) :
    ∃ r', (isRevoked (some r) key f).2 = some r' ∧ r'.path = r.path ∧ r'.Holds k ∧
      (r'.initialized = true ↔ r.initialized = true ∨ f.LoadsAfter zeroTime) := by
  rcases reload_cases r f hpath with ⟨hb, err, h⟩ | ⟨-, hl, keys, t, h⟩ | ⟨-, hl, h⟩
  · refine ⟨r, by simp [isRevoked, h], rfl, hr, (or_iff_left_of_imp fun hload => ?_).symm⟩
    -- an uninitialized store that fails on the file has not loaded it
    by_contra hinit
    rw [hr.fresh (by simpa using hinit)] at hb
    cases f with
    | file modTime content => exact hb.2 hload.2
    | missing | statError err => exact hload
  · refine ⟨{ r with keys := keys ++ r.keys, modTime := t, initialized := true }, by
      simp only [isRevoked, h], rfl, ⟨List.mem_append_right _ hr.mem, by simp⟩, ?_⟩
    refine iff_of_true rfl ?_
    by_cases hinit : r.initialized = true
    · exact .inl hinit
    · rw [hr.fresh (by simpa using hinit)] at hl
      exact .inr hl
  · refine ⟨r, by simp [isRevoked, h], rfl, hr, (or_iff_left_of_imp fun hload => ?_).symm⟩
    by_contra hinit
    rw [hr.fresh (by simpa using hinit)] at hl
    exact hl hload

/-- **The store after any sequence of handshakes**: it still holds the key, and it has been
initialized if the file was read at startup or in one of them. -/
theorem afterAttempts_cases {r : RevocationStore} {k : Bytes} (hr : r.Holds k) (hpath : r.path ≠ "")
    (l : List Attempt) :
    ∃ r', afterAttempts (some r) l = some r' ∧ r'.path = r.path ∧ r'.Holds k ∧
      (r'.initialized = true ↔ r.initialized = true ∨ ∃ a ∈ l, a.file.LoadsAfter zeroTime) := by
  induction l generalizing r with
  | nil => exact ⟨r, rfl, rfl, hr, by simp⟩
  | cons a l ih =>
    obtain ⟨r₁, h₁, hp₁, hr₁, hi₁⟩ := isRevoked_holds hr hpath a.key a.file
    obtain ⟨r₂, h₂, hp₂, hr₂, hi₂⟩ := ih hr₁ (hp₁ ▸ hpath)
    refine ⟨r₂, by rw [← h₂, ← h₁]; rfl, hp₂.trans hp₁, hr₂, ?_⟩
    simp [hi₂, hi₁, or_assoc]

theorem isRevoked_iff {r : RevocationStore} {k : Bytes} (hr : r.Holds k) (hpath : r.path ≠ "")
    (f : FileState) :
    (isRevoked (some r) k f).1 = true ↔ r.initialized = true ∨ ¬f.BrokenAfter zeroTime := by
  by_cases hinit : r.initialized = true
  · rcases reload_cases r f hpath with ⟨-, err, h⟩ | ⟨-, -, keys, t, h⟩ | ⟨-, -, h⟩ <;>
      simp [isRevoked, h, hinit, hr.mem]
  · have hmod := hr.fresh (by simpa using hinit)
    rw [← hmod]
    rcases reload_cases r f hpath with ⟨hb, err, h⟩ | ⟨hb, -, keys, t, h⟩ | ⟨hb, -, h⟩ <;>
      simp [isRevoked, h, hinit, hb, hr.mem]

theorem afterAttempts_none (l : List Attempt) : afterAttempts none l = none := by
  induction l with
  | nil => rfl
  | cons a l ih => exact ih

theorem afterAttempts_noFile {r : RevocationStore} (hpath : r.path = "") (l : List Attempt) :
    afterAttempts (some r) l = some r := by
  induction l with
  | nil => rfl
  | cons a l ih =>
    have hsame : (isRevoked (some r) a.key a.file).2 = some r := by
      simp [isRevoked, RevocationStore.reload, hpath]
    rw [afterAttempts, List.foldl_cons, hsame]
    exact ih

/-! ## Startup -/

/-- The store `main` runs with: none after an error of `newRevocationStore`. -/
theorem startup_cases (static : List Bytes) (path : String) (f : FileState) {k : Bytes}
    (hk : ∃ value ∈ static, hexDecode value = some k ∧ k.length = keySize) :
    (startup static path f = none ∧ ((¬∀ value ∈ static, ValidKey value) ∨
      (path ≠ "" ∧ ¬f.Readable ∧ f ≠ .missing))) ∨
    ((∀ value ∈ static, ValidKey value) ∧ (path = "" ∨ f.Readable ∨ f = .missing) ∧
      ∃ r, startup static path f = some r ∧ r.path = path ∧ r.Holds k ∧
        (path ≠ "" → (r.initialized = true ↔ f.Readable))) := by
  by_cases hv : ∀ value ∈ static, ValidKey value
  swap
  · obtain ⟨err, herr⟩ := addRevokedKeys_error [] hv
    exact .inl ⟨by simp [startup, newRevocationStore, herr], .inl hv⟩
  obtain ⟨keys, hok, -, hall⟩ := addRevokedKeys_ok [] hv
  obtain ⟨value, hvalue, hdec, -⟩ := hk
  have hkeys : k ∈ keys := hall value hvalue k hdec
  by_cases hpath : path = ""
  · exact .inr ⟨hv, .inl hpath, ⟨path, keys, zeroTime, false⟩, by
      simp [startup, newRevocationStore, hok, hpath], rfl, ⟨hkeys, fun _ => rfl⟩, absurd hpath⟩
  cases f with
  | missing =>
    exact .inr ⟨hv, .inr (.inr rfl), ⟨path, keys, zeroTime, false⟩, by
      simp [startup, newRevocationStore, hok, hpath, RevocationStore.reload], rfl,
      ⟨hkeys, fun _ => rfl⟩, fun _ => iff_of_false (by simp) fun h => h⟩
  | statError err =>
    exact .inl ⟨by simp [startup, newRevocationStore, hok, hpath, RevocationStore.reload],
      .inr ⟨hpath, fun h => h, by simp⟩⟩
  | file modTime content =>
    rcases load_cases ⟨path, keys, zeroTime, false⟩ true modTime content
      hpath (.inl rfl) with ⟨hc, ks, t, h⟩ | ⟨hc, err, h⟩
    · exact .inr ⟨hv, .inr (.inl hc), ⟨path, ks ++ keys, t, true⟩, by
        simp only [startup, newRevocationStore, hok, ne_eq, hpath, not_false_eq_true, if_true, h],
        rfl, ⟨List.mem_append_right _ hkeys, by simp⟩, fun _ => iff_of_true rfl hc⟩
    · exact .inl ⟨by simp [startup, newRevocationStore, hok, hpath, h],
        .inr ⟨hpath, hc, by simp⟩⟩

/-- **When a statically revoked client is refused.** For every static list with the client's key,
every file name, every state of the file at startup, every sequence of handshakes since, and the
file as it is now. -/
theorem isRevoked_static_iff (static : List Bytes) (path : String) (atStart : FileState)
    (k : Bytes) (hk : ∃ value ∈ static, hexDecode value = some k ∧ k.length = keySize)
    (before : List Attempt) (now : FileState) :
    (isRevoked (afterAttempts (startup static path atStart) before) k now).1 = true ↔
      (∀ value ∈ static, ValidKey value) ∧
      (path = "" ∨ atStart.Readable ∨
        (atStart = .missing ∧
          (now.BrokenAfter zeroTime → ∃ a ∈ before, a.file.LoadsAfter zeroTime))) := by
  rcases startup_cases static path atStart hk with ⟨hnone, hbad⟩ | ⟨hv, hstart, r, hr, hp, hh, hi⟩
  · -- a nil store revokes nobody
    rw [hnone, afterAttempts_none]
    refine iff_of_false (by simp [isRevoked]) ?_
    rintro ⟨hv, hfile⟩
    rcases hbad with hbad | ⟨hp, hr, hm⟩
    · exact hbad hv
    · tauto
  by_cases hpath : path = ""
  · rw [hr, afterAttempts_noFile (hp.trans hpath)]
    refine iff_of_true ?_ ⟨hv, .inl hpath⟩
    simp [isRevoked, RevocationStore.reload, hp, hpath, hh.mem]
  · have hrp : r.path ≠ "" := hp ▸ hpath
    obtain ⟨r', hr', hp', hh', hi'⟩ := afterAttempts_cases hh hrp before
    rw [hr, hr', isRevoked_iff hh' (hp'.trans_ne hrp), hi', hi hpath]
    simp only [hpath, false_or, and_iff_right hv]
    rcases hstart.resolve_left hpath with hread | rfl
    · simp [hread]
    · simp only [FileState.Readable, false_or, true_and]
      rw [imp_iff_not_or, or_comm]

/-! ## A revoked client admitted -/

/-- A key of 32 bytes `0xaa`, in hexadecimal. -/
def sampleHex : Bytes := List.replicate 64 0x61

/-- With a malformed file at startup the server runs without a store, and admits the client. -/
theorem isRevoked_malformed_at_startup :
    hexDecode sampleHex = some (List.replicate 32 0xaa) ∧
    (isRevoked (startup [sampleHex] "revoked.json" (.file 1 (.malformed "unexpected end of JSON input")))
      (List.replicate 32 0xaa) (.file 1 (.malformed "unexpected end of JSON input"))).1 = false := by
  decide +kernel

theorem isRevoked_static_iff_noFile :
    (isRevoked (afterAttempts (startup [sampleHex] "" .missing) []) (List.replicate 32 0xaa)
      .missing).1 = true :=
  (isRevoked_static_iff [sampleHex] "" .missing (List.replicate 32 0xaa)
    ⟨sampleHex, List.mem_singleton.mpr rfl, by decide +kernel, by decide⟩ [] .missing).mpr
    ⟨fun _ h => List.mem_singleton.mp h ▸ ⟨List.replicate 32 0xaa, by decide +kernel, by decide⟩,
      .inl rfl⟩

end ObsidianVPN.Server
