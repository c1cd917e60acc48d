import Unitpm.AuditLog
import Unitpm.FlushAll

/-! # Deleting a process with its logs

`delete_handler` with `purge`, and `purge_log_dir`.  The handler notes the log directory of the
process before it deletes it; afterwards it resolves the directory of the process in there and the
directory above, and removes the one if it is inside the other.  The credential directory goes in
any case.

The directory is noted only where the spec has a `dir` of its own.  Without one the process logs to
the default directory, and its logs stay: `purged_iff` says that the purge is complete if and only
if the spec has a `dir`, unless the log directory lies in the credential directory. -/

namespace Unitpm

open Rust.Path Fs

/-! ### The handler -/

/-- `fs::remove_dir_all`. -/
def Disk.removeDirAll (s : Stays FileName) (fs : Disk) (p : OsStr) : Disk × Bool :=
  FileSystem.removeDirAll fs s (Path.ofText p)

/-- Where a path leads when a link in its last place is not followed. -/
def Disk.lresolve (fs : Disk) (p : OsStr) : Except Errno (List FileName) :=
  FileSystem.lresolve fs (Path.ofText p)

namespace Purge

/-- `purge_log_dir`. -/
def purgeLogDir (s : Stays FileName) (fs : Disk) (appLogDir : OsStr) : Disk :=
  match parent appLogDir with
  | none => fs
  | some dir =>
      match fs.canonicalize dir with
      | .error _ => fs
      | .ok baseResolved =>
          match fs.canonicalize appLogDir with
          | .error _ => fs
          | .ok targetResolved =>
              if withinRoot baseResolved targetResolved then (fs.removeDirAll s targetResolved).1
              else fs

/-- The log directory that `delete_handler` notes before it deletes. -/
def appLogDir (d : Daemon) (id : String) (purge : Bool) : Option String :=
  if purge then (d.processes.lookup id).bind fun p => p.spec.logs.bind AppLogs.dir else none

/-- The credential directory of a process. -/
def credsOf (id : String) : OsStr := join (OsStr.ofString credsDir) (OsStr.ofString id)

/-- The log directory of a process. -/
def logsOf (baseLogDir : OsStr) (id : String) : OsStr := join baseLogDir (OsStr.ofString id)

/-- What `delete_handler` removes from the disk, once the process is gone. -/
def removeData (h : Host) (s : Stays FileName) (fs : Disk) (id : String) (purge : Bool)
    (logDir : Option String) : Disk :=
  let fs :=
    if purge then
      match logDir with
      | none => fs
      | some cfgDir =>
          match getLogDir h fs cfgDir with
          | .error _ => fs
          | .ok baseLogDir => purgeLogDir s fs (logsOf baseLogDir id)
    else fs
  (fs.removeDirAll s (credsOf id)).1

/-- `delete_handler`, from the decoded parameters on. -/
def deleteHandler (h : Host) (s : Stays FileName) (fs : Disk) (d : Daemon) (identity : Identity)
    (args : DeleteArgs) : Handled :=
  match d.resolveId h args.id with
  | .error e =>
      ⟨d, fs, [auditEvent identity "delete" args.id ("", "") false (some e.toText)],
        .error e.toText⟩
  | .ok id =>
      let info := processMeta d id
      let logDir := appLogDir d id args.purge
      match d.delete h id with
      | (d, .ok _) =>
          ⟨d.deleteSpec h id, removeData h s fs id args.purge logDir,
            [auditEvent identity "delete" id info true none],
            .ok (.response (.done "deleted" id))⟩
      | (d, .error e) =>
          ⟨d, fs, [auditEvent identity "delete" id info false (some e.toText)], .error e.toText⟩

/-- But for the disk this is the handler of `AuditLog`. -/
theorem deleteHandler_agrees (h : Host) (s : Stays FileName) (errText : Serde.Error → String)
    (fs : Disk) (d : Daemon) (identity : Identity) (params : RawMessage) {args : DeleteArgs}
    (hp : params.unmarshal DeleteArgs.shape = .ok args) :
    let r := deleteHandler h s fs d identity args
    let r' := Audit.deleteHandler h errText (fun _ d => d) fs d identity params
    r.daemon = r'.daemon ∧ r.events = r'.events ∧ r.result = r'.result := by
  simp only [deleteHandler, Audit.deleteHandler, hp]
  cases d.resolveId h args.id with
  | error e => exact ⟨rfl, rfl, rfl⟩
  | ok id =>
      simp only
      cases d.delete h id with
      | mk d' r => cases r <;> exact ⟨rfl, rfl, rfl⟩

/-! ### Removing -/

variable {h : Host} {s : Stays FileName} {fs fs' : Disk} {d : Daemon} {id : String} {p q : OsStr}
  {root base : OsStr} {t l : List FileName}

/-- What is relied on of the text of a UUID, which every id is: it is longer than `..` and has no
slash. -/
def UuidText (id : String) : Prop := 32 ≤ id.toList.length ∧ '/' ∉ id.toList

instance (id : String) : Decidable (UuidText id) := inferInstanceAs (Decidable (_ ∧ _))

theorem validName_of_uuidText (hid : UuidText id) : ValidName (OsStr.ofString id) := by
  have hlen : 32 ≤ (OsStr.ofString id).length := by simpa [OsStr.ofString] using hid.1
  refine ⟨?_, ?_, ?_, ?_⟩
  · intro he
    simp [he] at hlen
  · intro he
    simp [he] at hlen
  · intro he
    simp [he] at hlen
  · intro hsep
    obtain ⟨c, hc, he⟩ := List.mem_map.mp hsep
    rw [OsChar.char.inj he] at hc
    exact hid.2 hc

/-- Of a disk something has been removed, and only what `gone` says. -/
structure Shrinks (gone : List FileName → Prop) (fs fs' : Disk) : Prop where
  same : fs' = { fs with tree := fs'.tree }
  only : ∀ q, fs'.tree.node q ≠ fs.tree.node q → gone q
  node : ∀ q x, fs'.tree.node q = some x → fs.tree.node q = some x
  canonicalize : ∀ a l, FileSystem.canonicalize fs' a = .ok l →
    FileSystem.canonicalize fs a = .ok l
  lresolve : ∀ a l, FileSystem.lresolve fs' a = .ok l → FileSystem.lresolve fs a = .ok l

theorem Shrinks.refl (gone : List FileName → Prop) (fs : Disk) : Shrinks gone fs fs where
  same := rfl
  only _ hq := absurd rfl hq
  node _ _ hx := hx
  canonicalize _ _ hl := hl
  lresolve _ _ hl := hl

theorem Shrinks.trans {gone : List FileName → Prop} {fs'' : Disk} (h₁ : Shrinks gone fs fs')
    (h₂ : Shrinks gone fs' fs'') : Shrinks gone fs fs'' where
  same := by
    have h := h₂.same
    rw [h₁.same] at h
    exact h
  only q hq := by
    by_cases h : fs''.tree.node q = fs'.tree.node q
    · exact h₁.only q (h ▸ hq)
    · exact h₂.only q h
  node q x hx := h₁.node q x (h₂.node q x hx)
  canonicalize a l hl := h₁.canonicalize a l (h₂.canonicalize a l hl)
  lresolve a l hl := h₁.lresolve a l (h₂.lresolve a l hl)

theorem shrinks_remove (s : Stays FileName) (fs : Disk) (l : List FileName) :
    Shrinks (l <+: ·) fs { fs with tree := fs.tree.remove s l } where
  same := rfl
  only _ hq := Tree.prefix_of_node_remove hq
  node _ _ hx := Tree.node_of_remove hx
  canonicalize _ _ hl := FileSystem.canonicalize_of_remove hl
  lresolve _ _ hl := FileSystem.lresolve_of_remove hl

theorem Shrinks.mono {gone gone' : List FileName → Prop} (hs : Shrinks gone fs fs')
    (hg : ∀ q, gone q → gone' q) : Shrinks gone' fs fs' :=
  { hs with only := fun q hq => hg q (hs.only q hq) }

theorem shrinks_removeDirAll (s : Stays FileName) (fs : Disk) (p : OsStr) :
    Shrinks (fun q => ∃ l, fs.lresolve p = .ok l ∧ l <+: q) fs (fs.removeDirAll s p).1 := by
  unfold Disk.removeDirAll
  rcases FileSystem.removeDirAll_cases fs s (Path.ofText p) with he | ⟨l, hl, -, he⟩
  · rw [he]
    exact Shrinks.refl _ fs
  · rw [he]
    exact (shrinks_remove s fs l).mono fun q hq => ⟨l, hl, hq⟩

theorem Shrinks.not_canonicalize {gone : List FileName → Prop} (hs : Shrinks gone fs fs')
    {a : Path FileName} (ha : FileSystem.canonicalize fs a = .ok l)
    (hl : fs'.tree.node l = none) (m : List FileName) :
    FileSystem.canonicalize fs' a ≠ .ok m := by
  intro hm
  obtain rfl : l = m := Except.ok.inj (ha.symm.trans (hs.canonicalize a m hm))
  have hsome := (FileSystem.clear_of_canonicalize hm).isSome_node
  rw [hl] at hsome
  cases hsome

/-! ### The log directory -/

theorem removeDirAll_resolved (ht : FileSystem.canonicalize fs (Path.ofText p) = .ok t)
    (hrm : (fs.removeDirAll s (locationText t)).2 = true) :
    t ≠ [] ∧ s.stays t = false ∧ (fs.tree.node t).any Node.isRemovable = true ∧
      (fs.removeDirAll s (locationText t)).1 = { fs with tree := fs.tree.remove s t } := by
  have hclear := FileSystem.clear_of_canonicalize ht
  have hlr := lresolve_locationText hclear
  unfold Disk.removeDirAll at hrm ⊢
  rcases FileSystem.removeDirAll_cases fs s (Path.ofText (locationText t)) with he | ⟨l, hl, hr, he⟩
  · rw [he] at hrm
    cases hrm
  · obtain rfl : t = l := Except.ok.inj (hlr.symm.trans hl)
    rw [he] at hrm ⊢
    simp only [ne_eq, Bool.and_eq_true, decide_eq_true_eq, Bool.not_eq_true'] at hrm
    exact ⟨hrm.1, hrm.2, hr, rfl⟩

theorem purgeLogDir_eq (s : Stays FileName) (huuid : UuidText id)
    (hbase : fs.canonicalize root = .ok base)
    (ht : FileSystem.canonicalize fs (Path.ofText (logsOf root id)) = .ok t)
    (hin : withinRoot base (locationText t) = true) :
    purgeLogDir s fs (logsOf root id) = (fs.removeDirAll s (locationText t)).1 := by
  obtain ⟨b, hb, rfl⟩ := Disk.canonicalize_ok hbase
  have hparent : parent (logsOf root id) = some (ofComponents (components root)) :=
    parent_join _ ⟨_, validName_of_uuidText huuid⟩
  have hclean : fs.canonicalize (ofComponents (components root)) = .ok (locationText b) := by
    rw [Disk.canonicalize, canonicalize_ofComponents hb]
    rfl
  have htarget : fs.canonicalize (logsOf root id) = .ok (locationText t) := by
    rw [Disk.canonicalize, ht]
    rfl
  simp only [purgeLogDir, hparent, hclean, htarget, hin, if_true]

theorem file_delete {p : Process} (hp : d.processes.lookup id = some p) {k : String} (hk : k ≠ id) :
    ((d.delete h id).1.deleteSpec h id).specDir.file k = d.specDir.file k := by
  obtain rfl : p.spec.id = id := Registry.spec_id hp
  have hsave : ((d.delete h p.spec.id).1.specDir).file k = d.specDir.file k := by
    rw [Daemon.delete_of_lookup hp, Daemon.remove_specDir, Daemon.stop_of_lookup hp]
    simp only [Daemon.saveWarn, Daemon.put_specDir, SpecDir.saveSpec, SpecDir.file]
    split
    · exact AList.lookup_insert_ne hk
    · rfl
    · exact AList.lookup_insert_ne hk
  rw [← hsave]
  simp only [Daemon.deleteSpec, SpecDir.deleteSpec, SpecDir.file]
  split
  · rfl
  · exact AList.lookup_erase_ne hk

/-! ### A complete purge -/

/-- What a purge is for: the log directory is gone, and nothing else but the credential directory
and the spec file of the process. -/
structure Purged (fs : Disk) (d : Daemon) (id : String) (logs : OsStr) (t : List FileName)
    (r : Handled) : Prop where
  answer : r.result = .ok (.response (.done "deleted" id))
  gone : r.disk.tree.node t = none
  unresolved : ∀ m, FileSystem.canonicalize r.disk (Path.ofText logs) ≠ .ok m
  only : ∀ q, r.disk.tree.node q ≠ fs.tree.node q →
    t <+: q ∨ ∃ c, fs.lresolve (credsOf id) = .ok c ∧ c <+: q
  rest : r.disk = { fs with tree := r.disk.tree }
  specs : ∀ k, k ≠ id → r.daemon.specDir.file k = d.specDir.file k

theorem deleteHandler_eq {p : Process} {target : String} (s : Stays FileName) (fs : Disk)
    (identity : Identity) (hid : d.resolveId h target = .ok id)
    (hp : d.processes.lookup id = some p) :
    let r := deleteHandler h s fs d identity ⟨target, true⟩
    r.result = .ok (.response (.done "deleted" id)) ∧
      r.disk = removeData h s fs id true (p.spec.logs.bind AppLogs.dir) ∧
      r.daemon = (d.delete h id).1.deleteSpec h id := by
  simp only [deleteHandler, hid, appLogDir, hp, if_true, Option.bind_some]
  rw [Daemon.delete_of_lookup hp]
  exact ⟨rfl, rfl, rfl⟩

/-- A purge is complete when the directory is gone and little else. -/
theorem purged_of_shrinks {proc : Process} {logs : OsStr} {r : Handled}
    (hp : d.processes.lookup id = some proc)
    (hanswer : r.result = .ok (.response (.done "deleted" id)))
    (hdaemon : r.daemon = (d.delete h id).1.deleteSpec h id)
    (hshrinks : Shrinks (fun q => t <+: q ∨ ∃ c, fs.lresolve (credsOf id) = .ok c ∧ c <+: q) fs
      r.disk)
    (ht : FileSystem.canonicalize fs (Path.ofText logs) = .ok t)
    (hgone : r.disk.tree.node t = none) : Purged fs d id logs t r where
  answer := hanswer
  gone := hgone
  unresolved := hshrinks.not_canonicalize ht hgone
  only := hshrinks.only
  rest := hshrinks.same
  specs k hk := by
    rw [hdaemon]
    exact file_delete hp hk

/-- With a directory of its own: first the logs go, then the credentials. -/
theorem shrinks_configured (h : Host) (huuid : UuidText id) {cfgDir : String}
    (hroot : getLogDir h fs cfgDir = .ok root) (hbase : fs.canonicalize root = .ok base)
    (ht : FileSystem.canonicalize fs (Path.ofText (logsOf root id)) = .ok t)
    (hin : withinRoot base (locationText t) = true)
    (hrm : (fs.removeDirAll s (locationText t)).2 = true) :
    Shrinks (fun q => t <+: q ∨ ∃ c, fs.lresolve (credsOf id) = .ok c ∧ c <+: q) fs
        (removeData h s fs id true (some cfgDir)) ∧
      (removeData h s fs id true (some cfgDir)).tree.node t = none := by
  obtain ⟨hne, hstays, -, hpurged⟩ := removeDirAll_resolved ht hrm
  have hdata : removeData h s fs id true (some cfgDir) =
      (Disk.removeDirAll s { fs with tree := fs.tree.remove s t } (credsOf id)).1 := by
    simp only [removeData, if_true, hroot]
    rw [purgeLogDir_eq s huuid hbase ht hin, hpurged]
  have hlogs := shrinks_remove s fs t
  have hcreds := shrinks_removeDirAll s { fs with tree := fs.tree.remove s t } (credsOf id)
  rw [← hdata] at hcreds
  have hnone : (fs.tree.remove s t).node t = none :=
    if_pos ⟨hne, List.prefix_rfl, hstays⟩
  constructor
  · refine (hlogs.mono fun q hq => .inl hq).trans (hcreds.mono ?_)
    rintro q ⟨c, hc, hq⟩
    exact .inr ⟨c, hlogs.lresolve _ c hc, hq⟩
  · cases hx : (removeData h s fs id true (some cfgDir)).tree.node t with
    | none => rfl
    | some x =>
        have := hcreds.node t x hx
        rw [hnone] at this
        cases this

/-- Without one only the credentials go. -/
theorem removed_default_iff
    (ht : FileSystem.canonicalize fs (Path.ofText p) = .ok t)
    (hrm : (fs.removeDirAll s (locationText t)).2 = true) :
    (fs.removeDirAll s q).1.tree.node t = none ↔ ∃ c, fs.lresolve q = .ok c ∧ c <+: t := by
  obtain ⟨hne, hstays, hremovable, -⟩ := removeDirAll_resolved ht hrm
  have hsome := (FileSystem.clear_of_canonicalize ht).isSome_node
  constructor
  · intro hnone
    refine (shrinks_removeDirAll s fs q).only t ?_
    rw [hnone]
    intro he
    rw [← he] at hsome
    cases hsome
  · rintro ⟨c, hc, hct⟩
    have hr : (fs.tree.node c).any Node.isRemovable = true := by
      by_cases hcat : c = t
      · rw [hcat]
        exact hremovable
      · have hd := Tree.isDir_of_prefix hct hcat hsome
        unfold Tree.isDir at hd
        cases hn : fs.tree.node c with
        | none => rw [hn] at hd; cases hd
        | some x =>
            rw [hn] at hd
            cases x with
            | dir i => rfl
            | file i => cases hd
            | special i => cases hd
            | symlink a => cases hd
    rw [Disk.removeDirAll, FileSystem.removeDirAll_of_removable hc hr]
    exact if_pos ⟨hne, hct, hstays⟩

/-- **When a purge is complete**: the spec has a log directory of its own, unless the log directory
lies in the credential directory. -/
theorem purged_iff (h : Host) (s : Stays FileName) (fs : Disk) (d : Daemon) (identity : Identity)
    (target id : String) (p : Process) (root base : OsStr) (t : List FileName)
    (hid : d.resolveId h target = .ok id) (hp : d.processes.lookup id = some p)
    (huuid : UuidText id) (hroot : getLogDir h fs p.spec.logsDir = .ok root)
    (hbase : fs.canonicalize root = .ok base)
    (ht : FileSystem.canonicalize fs (Path.ofText (logsOf root id)) = .ok t)
    (hin : withinRoot base (locationText t) = true)
    (hrm : (fs.removeDirAll s (locationText t)).2 = true) :
    Purged fs d id (logsOf root id) t (deleteHandler h s fs d identity ⟨target, true⟩) ↔
      (p.spec.logs.bind AppLogs.dir).isSome = true ∨
        ∃ c, fs.lresolve (credsOf id) = .ok c ∧ c <+: t := by
  obtain ⟨hanswer, hdisk, hdaemon⟩ := deleteHandler_eq s fs identity hid hp
  cases hdir : p.spec.logs.bind AppLogs.dir with
  | some cfgDir =>
      have hcfg : p.spec.logsDir = cfgDir := by
        rw [AppSpec.logsDir, hdir]
        rfl
      rw [hcfg] at hroot
      rw [hdir] at hdisk
      obtain ⟨hshrinks, hgone⟩ := shrinks_configured h huuid hroot hbase ht hin hrm
      rw [← hdisk] at hshrinks hgone
      exact iff_of_true (purged_of_shrinks hp hanswer hdaemon hshrinks ht hgone) (.inl rfl)
  | none =>
      have hdata : removeData h s fs id true none = (fs.removeDirAll s (credsOf id)).1 := rfl
      rw [hdir, hdata] at hdisk
      have hshrinks := shrinks_removeDirAll s fs (credsOf id)
      rw [← hdisk] at hshrinks
      constructor
      · intro hpurged
        have hgone := hpurged.gone
        rw [hdisk] at hgone
        exact .inr ((removed_default_iff ht hrm).mp hgone)
      · intro hor
        have hc := hor.resolve_left (by simp)
        have hgone := (removed_default_iff ht hrm).mpr hc
        rw [← hdisk] at hgone
        exact purged_of_shrinks hp hanswer hdaemon (hshrinks.mono fun q hq => .inr hq) ht hgone

/-- Nothing stays. -/
def nothingStays : Stays FileName := ⟨fun _ => false, fun _ _ h => h⟩

def rootAt : List FileName :=
  [.ofString "var", .ofString "log", .ofString "glyndor", .ofString "unitpm"]

def logsAt : List FileName := rootAt ++ [demoDir]

/-- A system with the logs of one process in the default directory. -/
def systemDisk : Disk where
  tree := Tree.ofEntries
    [([], .dir 0), (rootAt.take 1, .dir 1), (rootAt.take 2, .dir 2), (rootAt.take 3, .dir 3),
      (rootAt, .dir 4), (logsAt, .dir 5), (logsAt ++ [stdoutLog], .file 6)]
    (by decide +kernel) (by decide +kernel)
  cwd := []
  contents i := if i = 6 then [104, 105, 10] else []
  owner _ := 0
  readable _ := true
  writable _ := true
  nextIno := 7

def systemHost : Host := plainHost true cleanEnv

theorem canonicalize_logsOf :
    FileSystem.canonicalize systemDisk (Path.ofText (logsOf (OsStr.ofString logRoot) demoId)) =
      .ok logsAt := by decide +kernel

/-- The default directory, configured, is purged. -/
theorem purged_iff_configured :
    Purged systemDisk (daemonWith (logsIn logRoot)) demoId
      (logsOf (OsStr.ofString logRoot) demoId) logsAt
      (deleteHandler systemHost nothingStays systemDisk
        (daemonWith (logsIn logRoot)) ⟨"0"⟩ ⟨demoId, true⟩) :=
  (purged_iff systemHost nothingStays systemDisk
    (daemonWith (logsIn logRoot)) ⟨"0"⟩ demoId demoId
    (processWith (logsIn logRoot)) (OsStr.ofString logRoot)
    (OsStr.ofString logRoot) logsAt (by decide +kernel) (by decide +kernel) (by decide +kernel)
    (by decide +kernel) (by decide +kernel) canonicalize_logsOf (by decide +kernel)
    (by decide +kernel)).mpr (.inl rfl)

/-- The same directory, used because nothing is configured, stays. -/
theorem default_logs_stay :
    (daemonWith none).resolveId systemHost demoId = .ok demoId ∧
      (daemonWith none).processes.lookup demoId = some (processWith none) ∧
      getLogDir systemHost systemDisk (processWith none).spec.logsDir =
        .ok (OsStr.ofString logRoot) ∧
      systemDisk.canonicalize (OsStr.ofString logRoot) = .ok (OsStr.ofString logRoot) ∧
      FileSystem.canonicalize systemDisk (Path.ofText (logsOf (OsStr.ofString logRoot) demoId)) =
        .ok logsAt ∧
      withinRoot (OsStr.ofString logRoot) (locationText logsAt) = true ∧
      (systemDisk.removeDirAll nothingStays (locationText logsAt)).2 = true ∧
      (deleteHandler systemHost nothingStays systemDisk (daemonWith none) ⟨"0"⟩
        ⟨demoId, true⟩).result.isOk = true ∧
      (deleteHandler systemHost nothingStays systemDisk (daemonWith none) ⟨"0"⟩
        ⟨demoId, true⟩).disk.tree.node logsAt = some (.dir 5) ∧
      ¬ Purged systemDisk (daemonWith none) demoId (logsOf (OsStr.ofString logRoot) demoId) logsAt
        (deleteHandler systemHost nothingStays systemDisk (daemonWith none) ⟨"0"⟩
          ⟨demoId, true⟩) := by
  have hstays : (deleteHandler systemHost nothingStays systemDisk (daemonWith none) ⟨"0"⟩
      ⟨demoId, true⟩).disk.tree.node logsAt = some (.dir 5) := by decide +kernel
  refine ⟨by decide +kernel, by decide +kernel, by decide +kernel, by decide +kernel,
    canonicalize_logsOf, by decide +kernel, by decide +kernel, by decide +kernel, hstays, ?_⟩
  intro hpurged
  have hgone := hpurged.gone
  rw [hstays] at hgone
  cases hgone

end Purge

end Unitpm
