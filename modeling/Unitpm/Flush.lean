import Unitpm.LogRoot
import Unitpm.Service

/-! # Truncating the logs of a process

`internal/daemon/handlers/flush.rs`.  For each of the two log files of a process the handler
resolves the directory the file is in, requires it and the path itself to be inside the log root,
looks at what is there without following a link, and truncates it if it is a regular file.

`flushHandler_frame`: whatever links the file system has, only regular files that lie inside the
resolved log root are changed. -/

namespace Unitpm

open Rust.Path Fs

/-! ### The handler -/

/-- `audit::Event`, as the handlers fill it in. -/
structure AuditEvent where
  action : String
  target : String
  identity : Identity
  name : String := ""
  ns : String := ""
  success : Bool
  error : String := ""

/-- `process_meta`: name and namespace of a process, empty when it is gone. -/
def processMeta (d : Daemon) (id : String) : String × String :=
  match d.processes.lookup id with
  | none => ("", "")
  | some p => (p.info.name, p.info.ns)

/-- `strip_double_slash`. -/
def stripDoubleSlash (p : OsStr) : Except String OsStr :=
  if p = [] then .error "refusing to truncate log outside log root"
  else .ok (ofComponents (components p))

/-- `clean_lexical`. -/
def cleanLexical (p : OsStr) : OsStr := ofComponents (components p)

/-- What the loop of `flush_handler` keeps. -/
structure FlushState where
  fs : Disk
  bytesFreed : ℤ := 0
  lastErr : Option String := none

def FlushState.fail (st : FlushState) (msg : String) : FlushState := { st with lastErr := some msg }

/-- `refusing to truncate log outside log root`. -/
def FlushState.outside (st : FlushState) : FlushState :=
  st.fail "refusing to truncate log outside log root"

/-- The end of the loop body: the target is where it may be. -/
def truncateTarget (st : FlushState) (target : OsStr) : FlushState :=
  match st.fs.symlinkMetadata target with
  | .error e =>
      if e = .notFound then st else st.fail ("failed to stat log file: " ++ e.toText)
  | .ok (.symlink _) => st.fail "ERR_BAD_REQUEST: refusing to truncate symlink log file"
  | .ok (.file i) =>
      match FileSystem.create st.fs (Path.ofText target) with
      | .error e =>
          if e = .notFound then st
          else st.fail ("failed to truncate " ++ target.toStringLossy ++ ": " ++ e.toText)
      | .ok fs => { st with fs := fs, bytesFreed := st.bytesFreed + (st.fs.contents i).length }
  | .ok _ => st.fail ("refusing to truncate non-regular log file " ++ target.toStringLossy)

/-- The body of the loop of `flush_handler`, from the cleaned target on. -/
def flushTarget (baseResolved : OsStr) (st : FlushState) (target : OsStr) : FlushState :=
  match parent target with
  | none => st.outside
  | some targetDir =>
      match st.fs.canonicalize targetDir with
      | .error e =>
          if e = .notFound then
            if withinRoot baseResolved (cleanLexical targetDir) = false then st.outside
            else if withinRoot baseResolved target = false then st.outside
            else st
          else st.fail ("failed to resolve log directory symlinks: " ++ e.toText)
      | .ok targetResolvedDir =>
          if withinRoot baseResolved targetResolvedDir = false then st.outside
          else if withinRoot baseResolved target = false then st.outside
          else truncateTarget st target

/-- The body of the loop of `flush_handler`. -/
def flushPath (logRoot baseResolved : OsStr) (st : FlushState) (p : OsStr) : FlushState :=
  if p = [] then st
  else match stripDoubleSlash (if isAbsolute p then p else join logRoot p) with
    | .error msg => st.fail msg
    | .ok target => flushTarget baseResolved st target

/-- The spec of a process: of the live one, or the one on disk. -/
def flushSpec (h : Host) (d : Daemon) (id : String) : Option AppSpec :=
  match d.processes.lookup id with
  | some p => some p.spec
  | none => (d.specDir.loadSpec h id).toOption

/-- The log root of a spec, as configured and resolved. -/
def resolveLogRoot (h : Host) (fs : Disk) (s : AppSpec) : Except String (OsStr × OsStr) :=
  match getLogDir h fs s.logsDir with
  | .error e => .error ("failed to resolve log root: " ++ e.toText)
  | .ok logRoot =>
      match fs.canonicalize logRoot with
      | .error e => .error ("failed to resolve log root symlinks: " ++ e.toText)
      | .ok baseResolved => .ok (logRoot, baseResolved)

structure FlushResponse where
  status : String := "flushed"
  id : String
  bytesFreed : ℤ
deriving DecidableEq

/-- `flush_handler` for a spec that was found. -/
def flushLogs (h : Host) (fs : Disk) (id : String) (s : AppSpec) :
    Disk × Except String FlushResponse :=
  match resolveLogPaths h fs s.id s.logsDir s.logsStdout s.logsStderr with
  | .error e => (fs, .error ("failed to resolve log paths: " ++ e.toText))
  | .ok (stdoutPath, stderrPath) =>
      match resolveLogRoot h fs s with
      | .error msg => (fs, .error msg)
      | .ok (logRoot, baseResolved) =>
          let st := [stdoutPath, stderrPath].foldl (flushPath logRoot baseResolved) { fs := fs }
          match st.lastErr with
          | some msg => (st.fs, .error msg)
          | none => (st.fs, .ok { id := id, bytesFreed := st.bytesFreed })

/-- `flush_handler`: what is left on disk, the audit events and the answer. -/
def flushHandler (h : Host) (fs : Disk) (d : Daemon) (identity : Identity) (target : String) :
    Disk × List AuditEvent × Except String FlushResponse :=
  match d.resolveId h target with
  | .error e =>
      (fs, [{ action := "flush", target := target, identity := identity, success := false,
              error := e.toText }], .error e.toText)
  | .ok id =>
      let event (err : Option String) : AuditEvent :=
        { action := "flush", target := id, identity := identity, name := (processMeta d id).1,
          ns := (processMeta d id).2, success := err.isNone, error := err.getD "" }
      match flushSpec h d id with
      | none =>
          let msg := "process not found: " ++ target
          (fs, [event (some msg)], .error msg)
      | some s =>
          match flushLogs h fs id s with
          | (fs, .error msg) => (fs, [event (some msg)], .error msg)
          | (fs, .ok r) => (fs, [event none], .ok r)

/-! ### What is changed -/

variable {h : Host} {fs : Disk} {base p target : OsStr}

/-- The location is the resolved one of a regular file. -/
def Disk.RegularAt (fs : Disk) (l : List FileName) (i : ℕ) : Prop :=
  fs.tree.Clear l ∧ fs.tree.node l = some (.file i)

/-- Of the file system only contents have changed, and only of regular files inside the root. -/
def OnlyInside (fs : Disk) (base : OsStr) (fs' : Disk) : Prop :=
  ∃ contents, fs' = { fs with contents := contents } ∧
    ∀ i, contents i ≠ fs.contents i →
      ∃ l, fs.RegularAt l i ∧ withinRoot base (locationText l) = true

theorem onlyInside_refl (fs : Disk) (base : OsStr) : OnlyInside fs base fs :=
  ⟨fs.contents, rfl, fun _ hi => absurd rfl hi⟩

theorem OnlyInside.truncate {fs' : Disk} (hin : OnlyInside fs base fs') {l : List FileName} {i : ℕ}
    (hl : fs.RegularAt l i) (hw : withinRoot base (locationText l) = true) :
    OnlyInside fs base (FileSystem.truncate fs' i) := by
  obtain ⟨c, rfl, hc⟩ := hin
  refine ⟨Function.update c i [], rfl, fun j hj => ?_⟩
  by_cases hji : j = i
  · rw [hji]
    exact ⟨l, hl, hw⟩
  · rw [Function.update_of_ne hji] at hj
    exact hc j hj

theorem components_of_withinRoot {b : List FileName}
    (hw : withinRoot (locationText b) p = true) :
    ∃ l, components p = .rootDir :: nameComponents l := by
  obtain ⟨rel, he, hup⟩ := withinRoot_iff.mp hw
  rw [components_locationText, List.cons_append] at he
  have habs := isAbsolute_of_components he
  have hup' : .parentDir ∉ nameComponents b ++ rel := by
    simp [nameComponents, hup]
  obtain ⟨l, hl⟩ := exists_names_of_append [sep] habs (by decide) he hup'
  have hl : nameComponents b ++ rel = nameComponents l := hl
  exact ⟨l, by rw [he, hl]⟩

theorem exists_location_of_withinRoot {b : List FileName}
    (hw : withinRoot (locationText b) (cleanLexical p) = true) :
    ∃ l, cleanLexical p = locationText l := by
  obtain ⟨l, hl⟩ := components_of_withinRoot hw
  have habs : isAbsolute p = true :=
    (isAbsolute_ofComponents p).symm.trans (isAbsolute_of_components hl)
  rw [cleanLexical, components_ofComponents habs] at hl
  exact ⟨l, by rw [cleanLexical, hl, ofComponents_location]⟩

theorem parent_locationText_concat (l : List FileName) (n : FileName) :
    parent (locationText (l ++ [n])) = some (locationText l) := by
  have e : Component.rootDir :: nameComponents (l ++ [n]) =
      (.rootDir :: nameComponents l) ++ [.normal n.1] := by simp [nameComponents]
  rw [parent, components_locationText, e, List.getLast?_concat, List.dropLast_concat,
    ofComponents_location]

theorem parent_locationText (l : List FileName) :
    parent (locationText l) = none ∨
      ∃ m n, l = m ++ [n] ∧ parent (locationText l) = some (locationText m) := by
  rcases List.eq_nil_or_concat l with rfl | ⟨m, n, rfl⟩
  · exact .inl rfl
  · rw [List.concat_eq_append]
    exact .inr ⟨m, n, rfl, parent_locationText_concat m n⟩

theorem locationText_concat (l : List FileName) (n : FileName) :
    locationText (l ++ [n]) = join (locationText l) n.1 := by
  simp [locationText]

/-- A regular file whose directory resolves to a place inside the root. -/
theorem exists_regularAt {m : List FileName} {n : FileName} {rdir : OsStr} {i : ℕ}
    (hrdir : fs.canonicalize (locationText m) = .ok rdir) (hw : withinRoot base rdir = true)
    (hi : fs.symlinkMetadata (locationText (m ++ [n])) = .ok (.file i)) :
    (∃ l, fs.RegularAt l i ∧ withinRoot base (locationText l) = true) ∧
      FileSystem.create fs (Path.ofText (locationText (m ++ [n]))) =
        if fs.writable i then .ok (FileSystem.truncate fs i) else .error .permissionDenied := by
  have habs := isAbsolute_locationText m
  rw [locationText_concat] at hi ⊢
  rw [Disk.symlinkMetadata, symlinkMetadata_join habs] at hi
  cases hloc : locate fs (locationText m) n with
  | error e => rw [hloc] at hi; cases hi
  | ok r =>
      obtain ⟨dir, k, x⟩ := r
      rw [hloc] at hi
      obtain rfl : x = .file i := Except.ok.inj hi
      have hcan := canonicalize_of_locate habs hloc
      rw [Disk.canonicalize, hcan] at hrdir
      obtain rfl : locationText dir = rdir := Except.ok.inj hrdir
      have hlook := (Tree.locate_ok.mp hloc).2
      refine ⟨⟨dir ++ [n], ⟨?_, Tree.lookup_ok hlook⟩, withinRoot_concat hw n⟩, ?_⟩
      · exact (FileSystem.clear_of_canonicalize hcan).concat hlook rfl
      · obtain ⟨a, ha, he⟩ := exists_segs_join fs habs n
        rw [hloc] at he
        obtain ⟨hwalk, hlook⟩ := Tree.locate_ok.mp he
        exact FileSystem.create_of_file (absolute_join habs n) ha hwalk hlook

/-- The end of the loop body. -/
theorem truncateTarget_onlyInside {st : FlushState} (hin : OnlyInside fs base st.fs)
    {m : List FileName} {n : FileName} {rdir : OsStr}
    (hrdir : st.fs.canonicalize (locationText m) = .ok rdir) (hw : withinRoot base rdir = true) :
    OnlyInside fs base (truncateTarget st (locationText (m ++ [n]))).fs := by
  unfold truncateTarget
  split
  · split <;> exact hin
  · exact hin
  · rename_i i hi
    obtain ⟨⟨l, hl, hwl⟩, hcreate⟩ := exists_regularAt hrdir hw hi
    have hl : fs.RegularAt l i := by
      obtain ⟨c, hc, -⟩ := hin
      rw [hc] at hl
      exact hl
    rw [hcreate]
    split
    · split <;> exact hin
    · rename_i fs' hfs'
      split at hfs'
      · rw [← Except.ok.inj hfs']
        exact hin.truncate hl hwl
      · cases hfs'
  · exact hin

/-- **One target**: it is truncated only as a regular file inside the root. -/
theorem flushTarget_onlyInside {b : List FileName} {st : FlushState}
    (hin : OnlyInside fs (locationText b) st.fs) :
    OnlyInside fs (locationText b) (flushTarget (locationText b) st (cleanLexical p)).fs := by
  unfold flushTarget
  split
  · exact hin
  · rename_i targetDir hparent
    split
    · split
      · split
        · exact hin
        · split
          · exact hin
          · exact hin
      · exact hin
    · rename_i rdir hrdir
      split
      · exact hin
      · rename_i hwdir
        split
        · exact hin
        · rename_i hw
          rw [Bool.not_eq_false] at hwdir hw
          obtain ⟨l, hl⟩ := exists_location_of_withinRoot hw
          rw [hl] at hparent ⊢
          rcases parent_locationText l with hnone | ⟨m, n, rfl, hsome⟩
          · rw [hnone] at hparent
            cases hparent
          · obtain rfl := Option.some.inj (hsome.symm.trans hparent)
            exact truncateTarget_onlyInside hin hrdir hwdir

theorem flushPath_onlyInside {b : List FileName} {st : FlushState} (logRoot : OsStr)
    (hin : OnlyInside fs (locationText b) st.fs) :
    OnlyInside fs (locationText b) (flushPath logRoot (locationText b) st p).fs := by
  unfold flushPath
  split
  · exact hin
  · generalize (if isAbsolute p = true then p else join logRoot p) = q
    cases ht : stripDoubleSlash q with
    | error msg => exact hin
    | ok target =>
        unfold stripDoubleSlash at ht
        split at ht
        · cases ht
        · rw [← Except.ok.inj ht]
          exact flushTarget_onlyInside hin

theorem resolveLogRoot_ok {s : AppSpec} {root : OsStr}
    (hr : resolveLogRoot h fs s = .ok (root, base)) :
    getLogDir h fs s.logsDir = .ok root ∧ fs.canonicalize root = .ok base := by
  unfold resolveLogRoot at hr
  split at hr
  · cases hr
  · rename_i r hg
    split at hr
    · cases hr
    · rename_i b hc
      obtain ⟨rfl, rfl⟩ := Prod.mk.inj (Except.ok.inj hr)
      exact ⟨hg, hc⟩

/-- The handler for one spec: nothing outside its resolved log root changes. -/
theorem flushLogs_onlyInside (h : Host) (fs : Disk) (id : String) (s : AppSpec) :
    (flushLogs h fs id s).1 = fs ∨
      ∃ root base, resolveLogRoot h fs s = .ok (root, base) ∧
        OnlyInside fs base (flushLogs h fs id s).1 := by
  unfold flushLogs
  split
  · exact .inl rfl
  · rename_i out err hp
    cases hr : resolveLogRoot h fs s with
    | error msg => exact .inl rfl
    | ok r =>
        obtain ⟨root, base⟩ := r
        obtain ⟨b, -, rfl⟩ := Disk.canonicalize_ok (resolveLogRoot_ok hr).2
        refine .inr ⟨root, locationText b, rfl, ?_⟩
        have hloop : OnlyInside fs (locationText b)
            ([out, err].foldl (flushPath root (locationText b)) { fs := fs }).fs :=
          flushPath_onlyInside root (flushPath_onlyInside root (onlyInside_refl fs _))
        simp only
        split
        · exact hloop
        · exact hloop

theorem flushHandler_disk (h : Host) (fs : Disk) (d : Daemon) (identity : Identity)
    (target : String) :
    (flushHandler h fs d identity target).1 = fs ∨
      ∃ id s, d.resolveId h target = .ok id ∧ flushSpec h d id = some s ∧
        (flushHandler h fs d identity target).1 = (flushLogs h fs id s).1 := by
  unfold flushHandler
  cases hid : d.resolveId h target with
  | error e => exact .inl rfl
  | ok id =>
      simp only
      cases hs : flushSpec h d id with
      | none => exact .inl rfl
      | some s =>
          refine .inr ⟨id, s, rfl, hs, ?_⟩
          simp only
          cases flushLogs h fs id s with
          | mk fs' r => cases r <;> rfl

/-- **What a flush changes**: contents only, and only those of regular files whose resolved
location is inside the resolved log root of the process. -/
theorem flushHandler_frame (h : Host) (fs : Disk) (d : Daemon) (identity : Identity)
    (target : String) :
    ∃ contents, (flushHandler h fs d identity target).1 = { fs with contents := contents } ∧
      ∀ i, contents i ≠ fs.contents i →
        ∃ id s root base l, d.resolveId h target = .ok id ∧ flushSpec h d id = some s ∧
          getLogDir h fs s.logsDir = .ok root ∧ fs.canonicalize root = .ok base ∧
          fs.RegularAt l i ∧ withinRoot base (locationText l) = true := by
  rcases flushHandler_disk h fs d identity target with hsame | ⟨id, s, hid, hs, hdisk⟩
  · exact ⟨fs.contents, hsame, fun i hi => absurd rfl hi⟩
  · rcases flushLogs_onlyInside h fs id s with hsame | ⟨root, base, hr, contents, he, hc⟩
    · exact ⟨fs.contents, hdisk.trans hsame, fun i hi => absurd rfl hi⟩
    · refine ⟨contents, hdisk.trans he, fun i hi => ?_⟩
      obtain ⟨l, hl, hw⟩ := hc i hi
      obtain ⟨hg, hb⟩ := resolveLogRoot_ok hr
      exact ⟨id, s, root, base, l, hid, hs, hg, hb, hl, hw⟩

/-- A log of three bytes in `/l/p`. -/
def loggedDisk : Disk where
  tree := Tree.ofEntries
    [([], .dir 0), (location "/l", .dir 1), (location "/l/p", .dir 2),
      (location "/l/p/stdout.log", .file 3)] (by decide +kernel) (by decide +kernel)
  cwd := []
  contents i := if i = 3 then [104, 105, 10] else []
  owner _ := 0
  readable _ := true
  writable _ := true
  nextIno := 4

example :
    (flushLogs userHost loggedDisk "p"
      { plainSpec "p" with logs := some { mode := "file", dir := some "/l" } }).2 =
      .ok { id := "p", bytesFreed := 3 } := by decide +kernel

end Unitpm
