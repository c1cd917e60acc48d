import Mathlib.Algebra.BigOperators.Group.Finset.Basic
import Unitpm.Flush

/-! # Which logs are flushed

`flush_handler` resolves the log root, and for each of the two logs the directory the log is in.
Then it compares the path of the log itself with the resolved root, and that path is not resolved:
where the log root is reached through a link, or a path has a `..` in it, a log that is inside the
root is refused all the same.  A relative path is joined to the log root once more and is never
inside.

So, of two regular files inside the log root, both are emptied if and only if both can be written
and the paths of both begin with the resolved root as they are written (`flushes_iff`). -/

namespace Unitpm

open Rust.Path Fs

variable {h : Host} {fs : Disk} {root base p q : OsStr} {b : List FileName} {i j : ℕ}
  {st : FlushState}

/-! ### Paths inside a root -/

theorem withinRoot_congr (hpq : components p = components q) :
    withinRoot base p = withinRoot base q := by
  rw [withinRoot, withinRoot, stripPrefix, stripPrefix, hpq]

theorem withinRoot_of_relative (hp : isAbsolute p = false) :
    withinRoot (locationText b) p = false := by
  by_contra hw
  rw [Bool.not_eq_false] at hw
  obtain ⟨l, hl⟩ := components_of_withinRoot hw
  rw [isAbsolute_of_components hl] at hp
  cases hp

theorem isAbsolute_join_left (hp : isAbsolute p = true) (q : OsStr) :
    isAbsolute (join p q) = true := by
  by_cases hq : isAbsolute q = true
  · rw [join, if_pos hq]
    exact hq
  · rw [isAbsolute_join (Bool.not_eq_true _ ▸ hq)]
    exact hp

theorem isAbsolute_streamPath (hp : isAbsolute p = true) (default file : String) :
    isAbsolute (streamPath p default file) = true := by
  unfold streamPath
  split
  · exact isAbsolute_join_left hp _
  · split
    · assumption
    · exact isAbsolute_join_left hp _

theorem locationText_injective : Function.Injective locationText := by
  intro l m hlm
  have h := components_locationText l
  rw [hlm, components_locationText] at h
  have hinj : Function.Injective fun n : FileName => Component.normal n.1 := by
    intro a c hac
    exact Subtype.ext (Component.normal.inj hac)
  exact (List.map_injective_iff.mpr hinj (List.cons.inj h).2).symm

/-! ### One log -/

/-- A log file inside the resolved root: a regular file and no link, in a directory that is resolved
to a place inside the root. -/
def Disk.LogInside (fs : Disk) (base p : OsStr) (i : ℕ) : Prop :=
  fs.symlinkMetadata p = .ok (.file i) ∧
    ∃ dir n, fs.canonicalize p = .ok (locationText (dir ++ [n])) ∧
      withinRoot base (locationText dir) = true

theorem Disk.LogInside.ne_nil (hlog : fs.LogInside base p i) : p ≠ [] := by
  obtain ⟨-, dir, n, hc, -⟩ := hlog
  obtain ⟨l, hl, -⟩ := Disk.canonicalize_ok hc
  exact ne_nil_of_canonicalize hl

/-- The handler empties the log: it may write it, and the path begins with the resolved root. -/
def Disk.Flushable (fs : Disk) (base p : OsStr) (i : ℕ) : Prop :=
  withinRoot base p = true ∧ fs.writable i = true

/-- An error stays to the end of the loop. -/
theorem flushPath_isSome (hst : st.lastErr.isSome = true) :
    (flushPath root base st p).lastErr.isSome = true := by
  have htrunc : ∀ target, (truncateTarget st target).lastErr.isSome = true := by
    intro target
    unfold truncateTarget
    split
    · split
      · exact hst
      · rfl
    · rfl
    · split
      · split
        · exact hst
        · rfl
      · exact hst
    · rfl
  have htarget : ∀ target, (flushTarget base st target).lastErr.isSome = true := by
    intro target
    unfold flushTarget
    split
    · rfl
    · split
      · split
        · split
          · rfl
          · split
            · rfl
            · exact hst
        · rfl
      · split
        · rfl
        · split
          · rfl
          · exact htrunc target
  unfold flushPath
  split
  · exact hst
  · split
    · rfl
    · exact htarget _

/-- A path that does not begin with the resolved root is refused, wherever it leads. -/
theorem flushTarget_refused (hw : withinRoot base p = false) :
    (flushTarget base st p).lastErr.isSome = true := by
  simp only [flushTarget, hw, if_true]
  split
  · rfl
  · split
    · split
      · split
        · rfl
        · rfl
      · rfl
    · split
      · rfl
      · rfl

theorem flushPath_refused (hne : p ≠ []) (hrel : isAbsolute p = false → isAbsolute root = false)
    (hw : withinRoot (locationText b) p = false) :
    (flushPath root (locationText b) st p).lastErr.isSome = true := by
  rw [flushPath, if_neg hne]
  by_cases hp : isAbsolute p = true
  · rw [if_pos hp, stripDoubleSlash, if_neg hne]
    apply flushTarget_refused
    rw [withinRoot_congr (components_ofComponents hp)]
    exact hw
  · -- joined to a relative root the path is still relative
    rw [if_neg hp]
    rw [Bool.not_eq_true] at hp
    unfold stripDoubleSlash
    split
    · rfl
    · rename_i target htarget
      split at htarget
      · cases htarget
      · rw [← Except.ok.inj htarget]
        apply flushTarget_refused
        apply withinRoot_of_relative
        rw [isAbsolute_ofComponents, isAbsolute_join hp, hrel hp]

/-- What is done with a log inside the root whose path begins with the root. -/
theorem flushPath_eq (root : OsStr) (hlog : st.fs.LogInside (locationText b) p i)
    (hw : withinRoot (locationText b) p = true) :
    (st.fs.writable i = true → flushPath root (locationText b) st p =
      { st with fs := FileSystem.truncate st.fs i,
                bytesFreed := st.bytesFreed + (st.fs.contents i).length }) ∧
    (st.fs.writable i = false →
      (flushPath root (locationText b) st p).lastErr.isSome = true) := by
  obtain ⟨hi, dir', n', hcan', hdir'⟩ := hlog
  obtain ⟨l, hl⟩ := components_of_withinRoot hw
  have hp := isAbsolute_of_components hl
  obtain ⟨m, n, dir, k, rfl, hloc, hcan⟩ := locate_of_symlinkMetadata hl hi
  have hclean : ofComponents (components p) = locationText (m ++ [n]) := by
    rw [hl, ofComponents_location]
  have hmdir : st.fs.canonicalize (locationText m) = .ok (locationText dir) := by
    rw [Disk.canonicalize, canonicalize_of_locate (isAbsolute_locationText m) hloc]
    rfl
  have hdir : withinRoot (locationText b) (locationText dir) = true := by
    rw [Disk.canonicalize, hcan] at hcan'
    have he := locationText_injective (Except.ok.inj hcan')
    rw [(List.append_inj' he rfl).1]
    exact hdir'
  have hself : withinRoot (locationText b) (locationText (m ++ [n])) = true := by
    rw [← hclean, withinRoot_congr (components_ofComponents hp)]
    exact hw
  have hmeta : st.fs.symlinkMetadata (locationText (m ++ [n])) = .ok (.file i) := by
    rw [locationText_concat, Disk.symlinkMetadata, symlinkMetadata_join (isAbsolute_locationText m),
      hloc]
    rfl
  have hcreate := (exists_regularAt hmdir hdir hmeta).2
  rw [flushPath, if_neg (ne_nil_of_isAbsolute hp), if_pos hp, stripDoubleSlash,
    if_neg (ne_nil_of_isAbsolute hp), hclean]
  simp only [flushTarget, parent_locationText_concat, hmdir, hdir, hself, truncateTarget, hmeta,
    hcreate]
  constructor
  · intro hwr
    simp [hwr]
  · intro hwr
    simp [hwr, FlushState.fail]

theorem flushPath_cases (st : FlushState) (hlog : st.fs.LogInside (locationText b) p i)
    (hrel : isAbsolute p = false → isAbsolute root = false) :
    st.fs.Flushable (locationText b) p i ∧ flushPath root (locationText b) st p =
        { st with fs := FileSystem.truncate st.fs i,
                  bytesFreed := st.bytesFreed + (st.fs.contents i).length } ∨
      ¬ st.fs.Flushable (locationText b) p i ∧
        (flushPath root (locationText b) st p).lastErr.isSome = true := by
  cases hw : withinRoot (locationText b) p with
  | false =>
      refine .inr ⟨fun hf => ?_, flushPath_refused hlog.ne_nil hrel hw⟩
      rw [hf.1] at hw
      cases hw
  | true =>
      obtain ⟨hok, hdenied⟩ := flushPath_eq root hlog hw
      cases hwr : st.fs.writable i with
      | true => exact .inl ⟨⟨hw, hwr⟩, hok hwr⟩
      | false =>
          refine .inr ⟨fun hf => ?_, hdenied hwr⟩
          rw [hf.2] at hwr
          cases hwr

/-! ### Both logs -/

/-- The handler has done what it is for: both files are empty, and the bytes of each file are
counted once. -/
structure Flushes (fs : Disk) (id : String) (i j : ℕ)
    (r : Disk × List AuditEvent × Except String FlushResponse) : Prop where
  answer : r.2.2 = .ok { id := id, bytesFreed := ∑ k ∈ {i, j}, ((fs.contents k).length : ℤ) }
  stdout : r.1.contents i = []
  stderr : r.1.contents j = []

/-- The two paths are absolute where the log root is. -/
theorem relative_of_resolveLogPaths {id dir stdout stderr : String} {out err : OsStr}
    (hp : resolveLogPaths h fs id dir stdout stderr = .ok (out, err))
    (hr : getLogDir h fs dir = .ok root) :
    (isAbsolute out = false → isAbsolute root = false) ∧
      (isAbsolute err = false → isAbsolute root = false) := by
  rw [resolveLogPaths, hr] at hp
  obtain ⟨rfl, rfl⟩ := Prod.mk.inj (Except.ok.inj hp)
  constructor
  all_goals
    intro hrel
    by_contra habs
    rw [Bool.not_eq_false] at habs
    rw [isAbsolute_streamPath (isAbsolute_join_left habs _)] at hrel
    cases hrel

theorem bytes_eq_sum (fs : Disk) (i j : ℕ) :
    0 + ((fs.contents i).length : ℤ) + (((FileSystem.truncate fs i).contents j).length : ℤ) =
      ∑ k ∈ {i, j}, ((fs.contents k).length : ℤ) := by
  by_cases hij : i = j
  · subst hij
    simp [FileSystem.truncate]
  · have hj : (FileSystem.truncate fs i).contents j = fs.contents j :=
      Function.update_of_ne (Ne.symm hij) _ _
    rw [Finset.sum_pair hij, hj, zero_add]

theorem contents_truncate_of_nil (hi : fs.contents i = []) :
    (FileSystem.truncate fs j).contents i = [] := by
  by_cases hij : i = j
  · rw [hij]
    exact Function.update_self ..
  · exact (Function.update_of_ne hij _ _).trans hi

/-- The handler runs its loop over the two paths and answers by the last error. -/
theorem flushHandler_loop {d : Daemon} {target id : String} {s : AppSpec} {out err : OsStr}
    (identity : Identity) (hid : d.resolveId h target = .ok id) (hs : flushSpec h d id = some s)
    (hp : resolveLogPaths h fs s.id s.logsDir s.logsStdout s.logsStderr = .ok (out, err))
    (hr : resolveLogRoot h fs s = .ok (root, base)) {st : FlushState}
    (hst : flushPath root base (flushPath root base { fs := fs } out) err = st) :
    (flushHandler h fs d identity target).1 = st.fs ∧
      (flushHandler h fs d identity target).2.2 = match st.lastErr with
        | some msg => .error msg
        | none => .ok { id := id, bytesFreed := st.bytesFreed } := by
  simp only [flushHandler, hid, hs, flushLogs, hp, hr, List.foldl_cons, List.foldl_nil, hst]
  cases st.lastErr with
  | none => exact ⟨rfl, rfl⟩
  | some msg => exact ⟨rfl, rfl⟩

theorem not_flushes_of_error {id : String}
    {r : Disk × List AuditEvent × Except String FlushResponse} {msg : String}
    (hr : r.2.2 = .error msg) : ¬ Flushes fs id i j r := by
  intro hf
  have := hf.answer
  rw [hr] at this
  cases this

/-- **When a flush is complete**: both files are emptied if and only if both paths begin with the
resolved log root, as they are written, and both files can be written. -/
theorem flushes_iff (h : Host) (fs : Disk) (d : Daemon) (identity : Identity)
    (target id : String) (s : AppSpec) (out err root base : OsStr) (i j : ℕ)
    (hid : d.resolveId h target = .ok id) (hs : flushSpec h d id = some s)
    (hp : resolveLogPaths h fs s.id s.logsDir s.logsStdout s.logsStderr = .ok (out, err))
    (hroot : getLogDir h fs s.logsDir = .ok root) (hbase : fs.canonicalize root = .ok base)
    (hout : fs.LogInside base out i) (herr : fs.LogInside base err j) :
    Flushes fs id i j (flushHandler h fs d identity target) ↔
      fs.Flushable base out i ∧ fs.Flushable base err j := by
  obtain ⟨b, -, rfl⟩ := Disk.canonicalize_ok hbase
  obtain ⟨hrout, hrerr⟩ := relative_of_resolveLogPaths hp hroot
  have hr : resolveLogRoot h fs s = .ok (root, locationText b) := by
    rw [resolveLogRoot, hroot]
    simp only [hbase]
  obtain ⟨hdisk, hanswer⟩ := flushHandler_loop identity hid hs hp hr rfl
  have hfail : (flushPath root (locationText b)
      (flushPath root (locationText b) { fs := fs } out) err).lastErr.isSome = true →
      ¬ Flushes fs id i j (flushHandler h fs d identity target) := by
    intro hsome
    obtain ⟨msg, hmsg⟩ := Option.isSome_iff_exists.mp hsome
    rw [hmsg] at hanswer
    exact not_flushes_of_error hanswer
  rcases flushPath_cases { fs := fs } hout hrout with ⟨hfout, he⟩ | ⟨hfout, he⟩
  · -- the first round has changed contents only, so the second log is where it was
    have herr' : Disk.LogInside (FileSystem.truncate fs i) (locationText b) err j := herr
    rw [he] at hdisk hanswer hfail
    rcases flushPath_cases { fs := FileSystem.truncate fs i, bytesFreed := _ }
      herr' hrerr with ⟨hferr, he'⟩ | ⟨hferr, he'⟩
    · rw [he'] at hdisk hanswer
      refine iff_of_true ⟨?_, ?_, ?_⟩ ⟨hfout, hferr⟩
      · rw [hanswer]
        simp only [bytes_eq_sum]
      · rw [hdisk]
        exact contents_truncate_of_nil (Function.update_self ..)
      · rw [hdisk]
        exact Function.update_self ..
    · exact iff_of_false (hfail he') fun hf => hferr hf.2
  · exact iff_of_false (hfail (flushPath_isSome he)) fun hf => hfout hf.1

/-- The name of a process's own log directory. -/
def demoDir : FileName := .ofString demoId

/-- The directory of the process in `/l`. -/
def logDirL : List FileName := [.ofString "l", demoDir]

def stdoutLog : FileName := .ofString "stdout.log"

def stderrLog : FileName := .ofString "stderr.log"

/-- Logs of a process in `/l`, and a link `/s` to that directory. -/
def linkedDisk : Disk where
  tree := Tree.ofEntries
    [([], .dir 0), ([.ofString "l"], .dir 1), (logDirL, .dir 2),
      (logDirL ++ [stdoutLog], .file 3),
      (logDirL ++ [stderrLog], .file 4),
      ([.ofString "s"], .symlink (Path.ofText (OsStr.ofString "/l")))]
    (by decide +kernel) (by decide +kernel)
  cwd := []
  contents i := if i = 3 then [104, 105, 10] else if i = 4 then [33, 10] else []
  owner _ := 0
  readable _ := true
  writable _ := true
  nextIno := 5

/-- A process with a log section, or without one. -/
def processWith (logs : Option AppLogs) : Process where
  info := { id := demoId, name := "api", ns := "default" }
  spec := { plainSpec demoId with logs := logs }
  id_eq := .refl demoId
  name_eq := .refl "api"
  ns_eq := .refl "default"
  cron_ok := rfl

def daemonWith (logs : Option AppLogs) : Daemon where
  processes := .insert .empty (processWith logs)

/-- The log section of a process that logs to a directory. -/
def logsIn (dir : String) : Option AppLogs := some { mode := "file", dir := some dir }

/-- A log of the process. -/
def logIn (dir file : String) : OsStr := OsStr.ofString (dir ++ "/" ++ demoId ++ "/" ++ file)

theorem logInside_linkedDisk (n : FileName)
    (hm : linkedDisk.symlinkMetadata p = .ok (.file i))
    (hc : FileSystem.canonicalize linkedDisk (Path.ofText p) = .ok (logDirL ++ [n])) :
    linkedDisk.LogInside (OsStr.ofString "/l") p i := by
  refine ⟨hm, logDirL, n, ?_, by decide +kernel⟩
  rw [Disk.canonicalize, hc]
  rfl

/-- Where the log root is not a link both logs are emptied. -/
theorem flushes_iff_resolved :
    Flushes linkedDisk demoId 3 4
      (flushHandler userHost linkedDisk (daemonWith (logsIn "/l")) ⟨"1000"⟩ demoId) :=
  (flushes_iff userHost linkedDisk (daemonWith (logsIn "/l")) ⟨"1000"⟩ demoId demoId
    (processWith (logsIn "/l")).spec (logIn "/l" "stdout.log") (logIn "/l" "stderr.log")
    (OsStr.ofString "/l") (OsStr.ofString "/l") 3 4 (by decide +kernel) rfl (by decide +kernel)
    (by decide +kernel) (by decide +kernel)
    (logInside_linkedDisk stdoutLog (by decide +kernel) (by decide +kernel))
    (logInside_linkedDisk stderrLog (by decide +kernel) (by decide +kernel))).mpr
    ⟨⟨by decide +kernel, rfl⟩, ⟨by decide +kernel, rfl⟩⟩

/-- The same logs are refused where the log root is configured by the link. -/
theorem linked_root_refused :
    (daemonWith (logsIn "/s")).resolveId userHost demoId = .ok demoId ∧
      flushSpec userHost (daemonWith (logsIn "/s")) demoId = some (processWith (logsIn "/s")).spec ∧
      resolveLogPaths userHost linkedDisk demoId "/s" "" "" =
        .ok (logIn "/s" "stdout.log", logIn "/s" "stderr.log") ∧
      getLogDir userHost linkedDisk "/s" = .ok (OsStr.ofString "/s") ∧
      linkedDisk.canonicalize (OsStr.ofString "/s") = .ok (OsStr.ofString "/l") ∧
      linkedDisk.LogInside (OsStr.ofString "/l") (logIn "/s" "stdout.log") 3 ∧
      linkedDisk.LogInside (OsStr.ofString "/l") (logIn "/s" "stderr.log") 4 ∧
      (flushHandler userHost linkedDisk (daemonWith (logsIn "/s")) ⟨"1000"⟩ demoId).2.2 =
        .error "refusing to truncate log outside log root" ∧
      ¬ Flushes linkedDisk demoId 3 4
        (flushHandler userHost linkedDisk (daemonWith (logsIn "/s")) ⟨"1000"⟩ demoId) := by
  have hrefused : (flushHandler userHost linkedDisk (daemonWith (logsIn "/s")) ⟨"1000"⟩
      demoId).2.2 = .error "refusing to truncate log outside log root" := by decide +kernel
  have hout : linkedDisk.LogInside (OsStr.ofString "/l") (logIn "/s" "stdout.log") 3 :=
    logInside_linkedDisk stdoutLog (by decide +kernel) (by decide +kernel)
  have herr : linkedDisk.LogInside (OsStr.ofString "/l") (logIn "/s" "stderr.log") 4 :=
    logInside_linkedDisk stderrLog (by decide +kernel) (by decide +kernel)
  exact ⟨by decide +kernel, rfl, by decide +kernel, by decide +kernel, by decide +kernel, hout,
    herr, hrefused, not_flushes_of_error hrefused⟩

end Unitpm
