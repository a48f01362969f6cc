import ObsidianVPN.Lib.GoString

/-!
# The resolver configuration across crashes

On Linux without systemd-resolved the client replaces `/etc/resolv.conf`, keeps a backup of it beside
it, and puts it back at the end. A run may crash between any two of its file operations; the next run
starts from the two files as they are. All reads of a run come before its first change, so a run is
the list of its changes, and a crash leaves a prefix of that list.

* `applyResolvConf`, `restoreResolvConf`: the changes that a run makes;
* `ResolvRun.exec`, `afterRuns`: one run, and one after another;
* `exec_regular`, `exec_link`, `exec_lost`: a run when the original is a regular file, when the link
  is in place, and when it is not;
* **`restored_iff`**: a run that ends with the restore function puts the original back exactly when
  it was a regular file, or a link that is in place when the run starts. The target of a link is kept
  in the memory of a run only.
-/

namespace ObsidianVPN.Tun

open ByteStr GoString

/-! ## The two files -/

/-- What is at `/etc/resolv.conf`. No link has an empty target. -/
inductive ConfObject where
  | regular (content : Bytes)
  | link (target : {t : String // t ≠ ""})
  deriving DecidableEq

/-- `/etc/resolv.conf` and its backup. -/
structure ResolvFiles where
  conf : Option ConfObject
  backup : Option Bytes
  deriving DecidableEq

/-- The changes; the target of a link is not one of the two files. -/
inductive FileOp where
  | writeBackup (content : Bytes)
  | removeConf
  | writeConf (content : Bytes)
  | symlinkConf (target : {t : String // t ≠ ""})
  | removeBackup

/-- One change; `none` is an error after which the caller returns. A file is written through a link,
and a link is not made over a file. -/
def FileOp.exec (fs : ResolvFiles) : FileOp → Option ResolvFiles
  | .writeBackup content => some { fs with backup := some content }
  | .removeConf => some { fs with conf := none }
  | .writeConf content =>
    match fs.conf with
    | some (.link _) => some fs
    | _ => some { fs with conf := some (.regular content) }
  | .symlinkConf target =>
    match fs.conf with
    | none => some { fs with conf := some (.link target) }
    | some _ => none
  | .removeBackup => some { fs with backup := none }

def execOps (fs : ResolvFiles) : List FileOp → ResolvFiles
  | [] => fs
  | op :: ops =>
    match op.exec fs with
    | none => fs
    | some fs => execOps fs ops

/-! ## A run -/

/-- The result of `os.ReadFile`. -/
inductive ReadResult where
  | ok (content : Bytes)
  | notExist
  | failed

/-- What a run does not decide itself: the name server, what it reads if `/etc/resolv.conf` is a link,
and whether the backup and the new file can be written. -/
structure ResolvEnv where
  dns : Bytes
  throughLink : ReadResult
  backupWritten : Bool
  confWritten : Bool

def resolvConfFor (dns : Bytes) : Bytes :=
  ascii "# generated by Obsidian VPN; original saved in /etc/resolv.conf.obsidian-backup\nnameserver "
    ++ dns ++ ascii "\n"

def ResolvFiles.readConf (fs : ResolvFiles) (env : ResolvEnv) : ReadResult :=
  match fs.conf with
  | none => .notExist
  | some (.regular content) => .ok content
  | some (.link _) => env.throughLink

/-- `os.Readlink`; `none` is the empty string. -/
def ResolvFiles.readlink (fs : ResolvFiles) : Option {t : String // t ≠ ""} :=
  match fs.conf with
  | some (.link target) => some target
  | _ => none

def restoreResolvConf (orig : Bytes) : Option {t : String // t ≠ ""} → List FileOp
  | some target => [.removeConf, .symlinkConf target, .removeBackup]
  | none => [.writeConf orig, .removeBackup]

/-- `applyResolvConf` after the backup: its changes and those of the function it returns. -/
def replaceConf (env : ResolvEnv) (orig : Bytes) (linkTarget : Option {t : String // t ≠ ""}) :
    List FileOp × List FileOp :=
  let remove := if linkTarget.isSome then [.removeConf] else []
  if env.confWritten then
    (remove ++ [.writeConf (resolvConfFor env.dns)], restoreResolvConf orig linkTarget)
  else (remove ++ restoreResolvConf orig linkTarget, [])

/-- `applyResolvConf` from the backup on. The very first backup is kept; an error when it is written
ends the run. -/
def backupAndReplace (env : ResolvEnv) (fs : ResolvFiles) (orig : Bytes) :
    Option (List FileOp × List FileOp) :=
  match fs.backup with
  | none =>
    if env.backupWritten then
      let r := replaceConf env orig fs.readlink
      some (.writeBackup orig :: r.1, r.2)
    else none
  | some data => some (replaceConf env data fs.readlink)

/-- The changes that `applyResolvConf` makes and those of the function it returns; `none` when it
gives up before the first one. -/
def applyResolvConf (env : ResolvEnv) (fs : ResolvFiles) : Option (List FileOp × List FileOp) :=
  match fs.readConf env with
  | .failed => none
  | .notExist => backupAndReplace env fs []
  | .ok orig => backupAndReplace env fs orig

/-- A run, which crashes after some number of changes or ends with the returned function. -/
structure ResolvRun where
  env : ResolvEnv
  crash : Option ℕ

def ResolvRun.exec (r : ResolvRun) (fs : ResolvFiles) : ResolvFiles :=
  match applyResolvConf r.env fs with
  | none => fs
  | some (ops, restore) =>
    match r.crash with
    | some n => execOps fs ((ops ++ restore).take n)
    | none => execOps fs (ops ++ restore)

/-- The run has changed the configuration and ended with the restore function. -/
def ResolvRun.Completes (r : ResolvRun) (fs : ResolvFiles) : Prop :=
  r.crash = none ∧ applyResolvConf r.env fs ≠ none

/-- The files after a sequence of runs. -/
def afterRuns (orig : ConfObject) (runs : List ResolvRun) : ResolvFiles :=
  runs.foldl (fun fs r => r.exec fs) ⟨some orig, none⟩

/-! ## The changes of a run -/

/-- Every prefix of the changes leaves the files in `Q`. -/
def AlongOps (Q : ResolvFiles → Prop) : ResolvFiles → List FileOp → Prop
  | fs, [] => Q fs
  | fs, op :: ops => Q fs ∧ ∀ fs', op.exec fs = some fs' → AlongOps Q fs' ops

theorem AlongOps.take {Q : ResolvFiles → Prop} {fs : ResolvFiles} {ops : List FileOp}
    (h : AlongOps Q fs ops) (n : ℕ) : Q (execOps fs (ops.take n)) := by
  induction ops generalizing fs n with
  | nil =>
    rw [List.take_nil]
    exact h
  | cons op ops ih =>
    cases n with
    | zero => exact h.1
    | succ n =>
      rw [List.take_succ_cons, execOps]
      split
      · exact h.1
      · rename_i fs' hop
        exact ih (h.2 fs' hop) n

/-- A run keeps what all its changes keep. -/
theorem ResolvRun.exec_of_along {Q : ResolvFiles → Prop} {fs : ResolvFiles} (hfs : Q fs)
    (r : ResolvRun) (h : ∀ ops restore, applyResolvConf r.env fs = some (ops, restore) →
      AlongOps Q fs (ops ++ restore)) : Q (r.exec fs) := by
  unfold ResolvRun.exec
  split
  · exact hfs
  · rename_i ops restore hplan
    have halong := h ops restore hplan
    split
    · exact halong.take _
    · have := halong.take (ops ++ restore).length
      rwa [List.take_length] at this

/-- The changes of a run after the backup. -/
def changes (env : ResolvEnv) (orig : Bytes) (linkTarget : Option {t : String // t ≠ ""}) :
    List FileOp :=
  (replaceConf env orig linkTarget).1 ++ (replaceConf env orig linkTarget).2

/-- **What a run is going to change**: it writes a backup of what it has read, or takes what the
backup has. -/
theorem applyResolvConf_cases {env : ResolvEnv} {fs : ResolvFiles} {ops restore : List FileOp}
    (h : applyResolvConf env fs = some (ops, restore)) : ∃ orig,
      (fs.backup = none ∧ (∀ c, fs.conf = some (.regular c) → orig = c) ∧
        ops ++ restore = .writeBackup orig :: changes env orig fs.readlink) ∨
      (fs.backup = some orig ∧ ops ++ restore = changes env orig fs.readlink) := by
  have hread : ∃ orig, (∀ c, fs.conf = some (.regular c) → orig = c) ∧
      backupAndReplace env fs orig = some (ops, restore) := by
    unfold applyResolvConf at h
    split at h
    · cases h
    · rename_i hread
      refine ⟨[], fun c hc => ?_, h⟩
      simp [ResolvFiles.readConf, hc] at hread
    · rename_i orig hread
      refine ⟨orig, fun c hc => ?_, h⟩
      simp only [ResolvFiles.readConf, hc, ReadResult.ok.injEq] at hread
      exact hread.symm
  obtain ⟨orig, horig, hplan⟩ := hread
  unfold backupAndReplace at hplan
  split at hplan
  · rename_i hb
    split at hplan
    · cases hplan
      exact ⟨orig, .inl ⟨hb, horig, rfl⟩⟩
    · cases hplan
  · rename_i data hb
    exact ⟨data, .inr ⟨hb, by rw [changes, Option.some.inj hplan]⟩⟩

theorem ResolvRun.exec_of_completes {r : ResolvRun} {fs : ResolvFiles} (h : r.Completes fs) :
    ∃ ops restore, applyResolvConf r.env fs = some (ops, restore) ∧
      r.exec fs = execOps fs (ops ++ restore) := by
  obtain ⟨hcrash, hplan⟩ := h
  obtain ⟨⟨ops, restore⟩, hplan⟩ := Option.ne_none_iff_exists'.mp hplan
  exact ⟨ops, restore, hplan, by simp only [ResolvRun.exec, hplan, hcrash]⟩

/-! ## A regular file -/

/-- The file is a regular one, and its original content is in the backup or still in the file. -/
def Kept (c : Bytes) (fs : ResolvFiles) : Prop :=
  ∃ x, fs.conf = some (.regular x) ∧ (fs.backup = some c ∨ (fs.backup = none ∧ x = c))

theorem along_changes_regular (env : ResolvEnv) (c x : Bytes) :
    AlongOps (Kept c) ⟨some (.regular x), some c⟩ (changes env c none) := by
  cases hw : env.confWritten <;>
    simp [changes, replaceConf, restoreResolvConf, AlongOps, FileOp.exec, Kept, hw]

theorem execOps_changes_regular (env : ResolvEnv) (c x : Bytes) :
    execOps ⟨some (.regular x), some c⟩ (changes env c none) = ⟨some (.regular c), none⟩ := by
  cases hw : env.confWritten <;>
    simp [changes, replaceConf, restoreResolvConf, execOps, FileOp.exec, hw]

/-- **A run on a regular file.** -/
theorem exec_regular (r : ResolvRun) {c : Bytes} {fs : ResolvFiles} (h : Kept c fs) :
    Kept c (r.exec fs) ∧ (r.Completes fs → r.exec fs = ⟨some (.regular c), none⟩) := by
  obtain ⟨conf, backup⟩ := fs
  obtain ⟨x, rfl, hbackup⟩ : ∃ x, conf = some (.regular x) ∧
    (backup = some c ∨ (backup = none ∧ x = c)) := h
  -- with a backup it is the content `c`; without one the content that was read is `c`
  have hplan : ∀ ops restore, applyResolvConf r.env ⟨some (.regular x), backup⟩ = some (ops, restore) →
      (backup = none ∧ x = c ∧ ops ++ restore = .writeBackup c :: changes r.env c none) ∨
      (backup = some c ∧ ops ++ restore = changes r.env c none) := by
    intro ops restore hplan
    obtain ⟨orig, ⟨hnone, horig, hops⟩ | ⟨hsome, hops⟩⟩ := applyResolvConf_cases hplan
    · obtain ⟨-, rfl⟩ := hbackup.resolve_left (by rw [show backup = none from hnone]; simp)
      obtain rfl := horig x rfl
      exact .inl ⟨hnone, rfl, hops⟩
    · rcases hbackup with hc | ⟨hnone, -⟩
      · obtain rfl : orig = c := Option.some.inj ((show backup = some orig from hsome).symm.trans hc)
        exact .inr ⟨hsome, hops⟩
      · rw [show backup = some orig from hsome] at hnone
        cases hnone
  constructor
  · refine r.exec_of_along ⟨x, rfl, hbackup⟩ fun ops restore h => ?_
    rcases hplan ops restore h with ⟨rfl, rfl, hops⟩ | ⟨rfl, hops⟩
    · rw [hops]
      refine ⟨⟨x, rfl, .inr ⟨rfl, rfl⟩⟩, fun fs' hfs => ?_⟩
      cases hfs
      exact along_changes_regular r.env x x
    · rw [hops]
      exact along_changes_regular r.env c x
  · intro hc
    obtain ⟨ops, restore, h, hexec⟩ := ResolvRun.exec_of_completes hc
    rw [hexec]
    rcases hplan ops restore h with ⟨rfl, rfl, hops⟩ | ⟨rfl, hops⟩
    · rw [hops]
      exact execOps_changes_regular r.env x x
    · rw [hops]
      exact execOps_changes_regular r.env c x

/-! ## A link -/

theorem execOps_changes_link (env : ResolvEnv) (orig b : Bytes) (target : {t : String // t ≠ ""}) :
    execOps ⟨some (.link target), some b⟩ (changes env orig (some target)) =
      ⟨some (.link target), none⟩ := by
  cases hw : env.confWritten <;>
    simp [changes, replaceConf, restoreResolvConf, execOps, FileOp.exec, hw]

/-- **A run that completes puts the link it has found back.** -/
theorem exec_link {r : ResolvRun} {target : {t : String // t ≠ ""}} {fs : ResolvFiles}
    (hconf : fs.conf = some (.link target)) (h : r.Completes fs) :
    r.exec fs = ⟨some (.link target), none⟩ := by
  obtain ⟨conf, backup⟩ := fs
  obtain rfl : conf = some (.link target) := hconf
  obtain ⟨ops, restore, hplan, hexec⟩ := ResolvRun.exec_of_completes h
  rw [hexec]
  obtain ⟨orig, ⟨hnone, -, hops⟩ | ⟨hsome, hops⟩⟩ := applyResolvConf_cases hplan
  · rw [hops]
    exact execOps_changes_link r.env orig orig target
  · obtain rfl : backup = some orig := hsome
    rw [hops]
    exact execOps_changes_link r.env orig orig target

/-- Without a link in place a run does not make one. -/
theorem along_changes_lost (env : ResolvEnv) (orig : Bytes) {fs : ResolvFiles}
    (h : ∀ t, fs.conf ≠ some (.link t)) :
    AlongOps (fun fs => ∀ t, fs.conf ≠ some (.link t)) fs (changes env orig none) := by
  have hwrite : ∀ fs : ResolvFiles, (∀ t, fs.conf ≠ some (.link t)) → ∀ content fs',
      (FileOp.writeConf content).exec fs = some fs' → ∀ t, fs'.conf ≠ some (.link t) := by
    intro fs hfs content fs' hop
    -- nothing is written through a link
    simp only [FileOp.exec] at hop
    cases hop
    simp
  have hrestore : ∀ fs : ResolvFiles, (∀ t, fs.conf ≠ some (.link t)) →
      AlongOps (fun fs => ∀ t, fs.conf ≠ some (.link t)) fs (restoreResolvConf orig none) := by
    intro fs hfs
    refine ⟨hfs, fun fs₁ h₁ => ⟨hwrite fs hfs _ fs₁ h₁, fun fs₂ h₂ => ?_⟩⟩
    cases h₂
    exact hwrite fs hfs _ fs₁ h₁
  cases hw : env.confWritten
  · simpa [changes, replaceConf, hw] using hrestore fs h
  · have : changes env orig none =
        .writeConf (resolvConfFor env.dns) :: restoreResolvConf orig none := by
      simp [changes, replaceConf, hw]
    rw [this]
    exact ⟨h, fun fs' hop => hrestore fs' (hwrite fs h _ fs' hop)⟩

/-- **Once the link is gone, it stays away.** -/
theorem exec_lost (r : ResolvRun) {fs : ResolvFiles} (h : ∀ t, fs.conf ≠ some (.link t)) :
    ∀ t, (r.exec fs).conf ≠ some (.link t) := by
  refine r.exec_of_along (Q := fun fs => ∀ t, fs.conf ≠ some (.link t)) h
    fun ops restore hplan => ?_
  have hlink : fs.readlink = none := by
    unfold ResolvFiles.readlink
    split
    · rename_i t hconf
      exact absurd hconf (h t)
    · rfl
  obtain ⟨orig, ⟨-, -, hops⟩ | ⟨-, hops⟩⟩ := applyResolvConf_cases hplan
  · rw [hops, hlink]
    refine ⟨h, fun fs' hop => ?_⟩
    cases hop
    exact along_changes_lost r.env orig h
  · rw [hops, hlink]
    exact along_changes_lost r.env orig h

/-- With the link in place a run removes it or puts the same one back. -/
theorem exec_onlyLink (r : ResolvRun) {target : {t : String // t ≠ ""}} {fs : ResolvFiles}
    (hconf : fs.conf = some (.link target)) :
    ∀ t, (r.exec fs).conf = some (.link t) → t = target := by
  obtain ⟨conf, backup⟩ := fs
  obtain rfl : conf = some (.link target) := hconf
  have hchanges : ∀ orig b, AlongOps (fun fs => ∀ t, fs.conf = some (.link t) → t = target)
      ⟨some (.link target), b⟩ (changes r.env orig (some target)) := by
    intro orig b
    cases hw : r.env.confWritten <;>
      simp [changes, replaceConf, restoreResolvConf, AlongOps, FileOp.exec, hw, eq_comm]
  refine r.exec_of_along (Q := fun fs => ∀ t, fs.conf = some (.link t) → t = target)
    (by simp [eq_comm]) fun ops restore hplan => ?_
  obtain ⟨orig, ⟨-, -, hops⟩ | ⟨-, hops⟩⟩ := applyResolvConf_cases hplan
  · rw [hops]
    refine ⟨by simp [eq_comm], fun fs' hop => ?_⟩
    cases hop
    exact hchanges orig _
  · rw [hops]
    exact hchanges orig _

/-! ## Sequences of runs -/

theorem afterRuns_concat (orig : ConfObject) (runs : List ResolvRun) (r : ResolvRun) :
    afterRuns orig (runs ++ [r]) = r.exec (afterRuns orig runs) := by
  rw [afterRuns, List.foldl_append]
  rfl

theorem kept_afterRuns (c : Bytes) (runs : List ResolvRun) :
    Kept c (afterRuns (.regular c) runs) := by
  induction runs using List.reverseRecOn with
  | nil => exact ⟨c, rfl, .inr ⟨rfl, rfl⟩⟩
  | append_singleton runs r ih =>
    rw [afterRuns_concat]
    exact (exec_regular r ih).1

theorem onlyLink_afterRuns (target : {t : String // t ≠ ""}) (runs : List ResolvRun) :
    ∀ t, (afterRuns (.link target) runs).conf = some (.link t) → t = target := by
  induction runs using List.reverseRecOn with
  | nil =>
    intro t h
    cases h
    rfl
  | append_singleton runs r ih =>
    rw [afterRuns_concat]
    by_cases hlink : ∃ t, (afterRuns (.link target) runs).conf = some (.link t)
    · obtain ⟨t, ht⟩ := hlink
      obtain rfl := ih t ht
      exact exec_onlyLink r ht
    · intro t ht
      exact absurd ht (exec_lost r (fun t h => hlink ⟨t, h⟩) t)

/-- **When the original is put back.** For every original file or link and every sequence of runs,
each of which crashes after any of its changes, gives up or completes, a further run that completes
leaves the original, and no backup, exactly when the original was a regular file or is in place when
this run starts. -/
theorem restored_iff (orig : ConfObject) (runs : List ResolvRun) (last : ResolvRun)
    (hlast : last.Completes (afterRuns orig runs)) :
    last.exec (afterRuns orig runs) = ⟨some orig, none⟩ ↔
      (∃ c, orig = .regular c) ∨ (afterRuns orig runs).conf = some orig := by
  cases orig with
  | regular c => exact iff_of_true ((exec_regular last (kept_afterRuns c runs)).2 hlast) (.inl ⟨c, rfl⟩)
  | link target =>
    constructor
    · intro hrestored
      by_cases hlink : ∃ t, (afterRuns (.link target) runs).conf = some (.link t)
      · obtain ⟨t, ht⟩ := hlink
        obtain rfl := onlyLink_afterRuns target runs t ht
        exact .inr ht
      · refine absurd ?_ (exec_lost last (fun t h => hlink ⟨t, h⟩) target)
        rw [hrestored]
    · rintro (⟨c, hc⟩ | hconf)
      · cases hc
      · exact exec_link hconf hlast

/-- A link to the file of a local resolver. -/
def sampleLink : ConfObject := .link ⟨"/run/resolvconf/resolv.conf", by decide⟩

def sampleEnv : ResolvEnv := ⟨ascii "9.9.9.9", .ok (ascii "nameserver 10.0.0.1\n"), true, true⟩

/-- After a crash with the new file in place, the run that completes leaves a regular file. -/
theorem link_lost_after_crash :
    (afterRuns sampleLink [⟨sampleEnv, some 3⟩, ⟨sampleEnv, none⟩]) =
      ⟨some (.regular (ascii "nameserver 10.0.0.1\n")), none⟩ := by
  decide +kernel

/-- After a crash before the link is removed, the run that completes puts it back. -/
theorem link_restored_after_crash :
    (⟨sampleEnv, none⟩ : ResolvRun).exec (afterRuns sampleLink [⟨sampleEnv, some 1⟩]) =
      ⟨some sampleLink, none⟩ := by
  have hfs : afterRuns sampleLink [⟨sampleEnv, some 1⟩] =
      ⟨some sampleLink, some (ascii "nameserver 10.0.0.1\n")⟩ := by decide +kernel
  refine (restored_iff sampleLink [⟨sampleEnv, some 1⟩] ⟨sampleEnv, none⟩ ⟨rfl, ?_⟩).mpr ?_
  · rw [hfs]
    exact Option.some_ne_none _
  · rw [hfs]
    exact .inr rfl

end ObsidianVPN.Tun
