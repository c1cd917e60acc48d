import Unitpm.Paths
import Unitpm.Validate

/-! # Where the log files of an accepted spec lie

`validate_spec` refuses log paths that are absolute or begin with `..`.  What it lets through is
joined to the directory of the process; lexically, the result stays in that directory exactly when
the file name, normalised, does not climb out, or comes back at once
(`logPaths_contained_iff`). -/

namespace Unitpm

open Rust.Path Fs

theorem isAbsolute_ofString (p : String) : isAbsolute (OsStr.ofString p) = isAbsolutePath p := by
  unfold isAbsolutePath isAbsolute OsStr.ofString
  cases p.toList with
  | nil => rfl
  | cons c l =>
      have h : (OsChar.char c == OsChar.char '/') = (c == '/') := by
        rw [Bool.eq_iff_iff]
        simp
      exact h

/-- The name a stream is logged under. -/
def streamFile (default file : String) : String := if file = "" then default else file

theorem streamPath_eq {file : String} (hf : isAbsolutePath file = false) (appLogDir : OsStr)
    (default : String) :
    streamPath appLogDir default file =
      join appLogDir (OsStr.ofString (streamFile default file)) := by
  unfold streamPath streamFile
  split
  · rfl
  · rw [isAbsolute_ofString, hf]
    rfl

theorem inside_streamPath_iff {default file : String} (hd : isAbsolutePath default = false)
    (hf : isAbsolutePath file = false) (appLogDir : OsStr) :
    (lexical (streamPath appLogDir default file)).Inside (lexical appLogDir) ↔
      (lexical (OsStr.ofString (streamFile default file))).Returns (lexical appLogDir) := by
  have hs : isAbsolute (OsStr.ofString (streamFile default file)) = false := by
    rw [isAbsolute_ofString, streamFile]
    split
    · exact hd
    · exact hf
  rw [streamPath_eq hf, lexical_join hs, Lex.inside_join_iff]

theorem not_absolute_of_validateSpec {s : AppSpec} (hv : validateSpec s = .ok ()) :
    isAbsolutePath s.logsStdout = false ∧ isAbsolutePath s.logsStderr = false := by
  have hl := (validateSpec_ok_iff.mp hv).2.2.2.1
  unfold AppSpec.logsStdout AppSpec.logsStderr
  cases hs : s.logs with
  | none => exact ⟨by decide, by decide⟩
  | some l =>
      rw [hs] at hl
      have hl : validateLogs l = .ok () := hl
      simp only [validateLogs, firstError_ok_iff, List.forall_mem_cons, rejectIf_ok_iff] at hl
      obtain ⟨-, -, -, -, -, -, -, h1, h2, -⟩ := hl
      exact ⟨by simpa using h1, by simpa using h2⟩

/-- The test of `has_parent_dir_traversal` is right about a path iff one that does not begin with
`..` does not climb later. -/
theorem hasParentDirTraversal_iff_climbs (d : String) :
    (hasParentDirTraversal d = true ↔ Climbs (OsStr.ofString d)) ↔
      ((components (OsStr.ofString d)).head? ≠ some .parentDir → ¬ Climbs (OsStr.ofString d)) := by
  have hh : hasParentDirTraversal d = true ↔
      (components (OsStr.ofString d)).head? = some .parentDir := by
    simp [hasParentDirTraversal]
  rw [hh]
  constructor
  · intro h hn hc
    exact hn (h.mpr hc)
  · intro h
    refine ⟨climbs_of_head, fun hc => ?_⟩
    by_contra hn
    exact h hn hc

/-- **Log path containment**: the log files of an accepted spec are inside `log_dir/id`, and the
traversal test is right about `d`, exactly when neither file name climbs out of the directory
without coming back and `d` does not climb after a beginning other than `..`. -/
theorem logPaths_contained_iff (h : Host) (fs : Disk) (s : AppSpec) (logDir : OsStr) (d : String)
    (hv : validateSpec s = .ok ()) (hd : getLogDir h fs s.logsDir = .ok logDir) :
    ∃ out err,
      resolveLogPaths h fs s.id s.logsDir s.logsStdout s.logsStderr = .ok (out, err) ∧
      (((lexical out).Inside (lexical (join logDir (OsStr.ofString s.id))) ∧
          (lexical err).Inside (lexical (join logDir (OsStr.ofString s.id))) ∧
          (hasParentDirTraversal d = true ↔ Climbs (OsStr.ofString d))) ↔
        (lexical (OsStr.ofString (streamFile "stdout.log" s.logsStdout))).Returns
            (lexical (join logDir (OsStr.ofString s.id))) ∧
          (lexical (OsStr.ofString (streamFile "stderr.log" s.logsStderr))).Returns
            (lexical (join logDir (OsStr.ofString s.id))) ∧
          ((components (OsStr.ofString d)).head? ≠ some .parentDir →
            ¬ Climbs (OsStr.ofString d))) := by
  obtain ⟨h1, h2⟩ := not_absolute_of_validateSpec hv
  refine ⟨_, _, by rw [resolveLogPaths, hd], ?_⟩
  rw [inside_streamPath_iff (by decide) h1, inside_streamPath_iff (by decide) h2,
    hasParentDirTraversal_iff_climbs]

/-- A file system with nothing in it. -/
def bareDisk : Disk where
  tree := Tree.ofEntries [([], .dir 0)] (by decide) (by decide)
  cwd := []
  contents _ := []
  owner _ := 0
  readable _ := true
  writable _ := true
  nextIno := 1

/-- A command whose standard output is logged to a file of the given name. -/
def loggedSpec (stdout : String) : AppSpec :=
  { plainSpec demoId with
    logs := some { mode := "file", dir := some "/srv/logs", stdout := some stdout } }

theorem logPaths_contained_plain :
    ∃ out err,
      resolveLogPaths userHost bareDisk demoId "/srv/logs" "app.log" "" = .ok (out, err) ∧
      (((lexical out).Inside (lexical (OsStr.ofString ("/srv/logs/" ++ demoId))) ∧
          (lexical err).Inside (lexical (OsStr.ofString ("/srv/logs/" ++ demoId))) ∧
          (hasParentDirTraversal "a" = true ↔ Climbs (OsStr.ofString "a"))) ↔
        (lexical (OsStr.ofString "app.log")).Returns
            (lexical (OsStr.ofString ("/srv/logs/" ++ demoId))) ∧
          (lexical (OsStr.ofString "stderr.log")).Returns
            (lexical (OsStr.ofString ("/srv/logs/" ++ demoId))) ∧
          ((components (OsStr.ofString "a")).head? ≠ some .parentDir →
            ¬ Climbs (OsStr.ofString "a"))) :=
  logPaths_contained_iff userHost bareDisk (loggedSpec "app.log") (OsStr.ofString "/srv/logs") "a"
    (by decide +kernel) (by decide +kernel)

/-- `a/../../x` passes the checks and lies beside the directory of the process; `a/../..` passes
the traversal test. -/
theorem logPaths_escape :
    validateSpec (loggedSpec "a/../../x") = .ok () ∧
      getLogDir userHost bareDisk "/srv/logs" = .ok (OsStr.ofString "/srv/logs") ∧
      (∃ out err,
        resolveLogPaths userHost bareDisk demoId "/srv/logs" "a/../../x" "" = .ok (out, err) ∧
        ¬ (lexical out).Inside (lexical (OsStr.ofString ("/srv/logs/" ++ demoId))) ∧
        (lexical out).Inside (lexical (OsStr.ofString "/srv/logs/x"))) ∧
      hasParentDirTraversal "a/../.." = false ∧ Climbs (OsStr.ofString "a/../..") := by
  refine ⟨by decide +kernel, by decide +kernel, ⟨_, _, rfl, ?_, ?_⟩, by decide, by decide⟩
  · decide +kernel
  · decide +kernel

end Unitpm
