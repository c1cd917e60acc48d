import Unitpm.Flush
import Unitpm.LogPaths

/-! # Where the output of a process goes

The log files of a process are at `resolve_log_paths`: the `logs` command reads them there
(`build_sources`) and `flush` truncates them there.  What the process writes goes where its standard
streams lead.  `prepare_cmd` sets neither of them, and `setup_logs`, which opens the files, has no
caller: the child has the streams of the daemon (`prepareCmd_streams`). -/

namespace Unitpm

open Rust.Path

/-! ### Streams -/

/-- The output streams of a process. -/
structure StdStreams where
  stdout : Stream
  stderr : Stream
deriving DecidableEq

def Stdio.stream (inherited : Stream) : Stdio → Stream
  | inherit => inherited
  | given s => s

/-- The streams of a child. -/
def Command.childStreams (c : Command) (daemon : StdStreams) : StdStreams where
  stdout := c.stdout.stream daemon.stdout
  stderr := c.stderr.stream daemon.stderr

/-- No mode of isolation sets a stream. -/
theorem isolate_stdio {h : Host} {s : AppSpec} {infoId infoName : String} {cmd iso : Command}
    (hi : isolate h s infoId infoName cmd = .ok iso) (ho : cmd.stdout = .inherit)
    (he : cmd.stderr = .inherit) : iso.stdout = .inherit ∧ iso.stderr = .inherit := by
  unfold isolate at hi
  split_ifs at hi with h1 h2
  · split at hi
    · cases hi
    · obtain rfl := Except.ok.inj hi
      exact ⟨rfl, rfl⟩
  · split at hi
    · cases hi
    · split at hi
      · cases hi
      · obtain rfl := Except.ok.inj hi
        exact ⟨rfl, rfl⟩
  · obtain rfl := Except.ok.inj hi
    exact ⟨ho, he⟩

theorem prepareCmd_streams {h : Host} {s : AppSpec} {infoId infoName : String} {c : Command}
    (hc : prepareCmd h s infoId infoName = .ok c) (daemon : StdStreams) :
    c.childStreams daemon = daemon := by
  obtain ⟨bin, args, cmd, file, iso, -, hw, -, hi, rfl⟩ := prepareCmd_ok_iff.mp hc
  obtain ⟨d, rfl⟩ := checkCwd_ok hw
  have hb : (buildCommand bin args s.exec.shell).stdout = .inherit ∧
      (buildCommand bin args s.exec.shell).stderr = .inherit := by
    unfold buildCommand
    split <;> exact ⟨rfl, rfl⟩
  obtain ⟨ho, he⟩ := isolate_stdio hi hb.1 hb.2
  simp [Command.childStreams, applyEnv, ho, he, Stdio.stream]

/-! ### The readers -/

/-- One file that the `logs` command reads. -/
structure StreamSource where
  path : String
  label : String
  seqBase : ℕ := 0
deriving DecidableEq

/-- The options of `logs` that choose streams. -/
structure LogOptions where
  showStdout : Bool
  showStderr : Bool

/-- The paths as `logs` keeps them; none where they cannot be resolved. -/
def sourcePaths (h : Host) (fs : Disk) (s : AppSpec) : String × String :=
  match resolveLogPaths h fs s.id s.logsDir s.logsStdout s.logsStderr with
  | .ok (out, err) => (out.toStringLossy, err.toStringLossy)
  | .error _ => ("", "")

/-- `build_sources`. -/
def buildSources (h : Host) (fs : Disk) (s : AppSpec) (opts : LogOptions) : List StreamSource :=
  let paths := sourcePaths h fs s
  (if opts.showStdout then [{ path := paths.1, label := "STDOUT" }] else []) ++
    if opts.showStderr && paths.2 ≠ paths.1 then [{ path := paths.2, label := "STDERR" }] else []

/-- The output of a child is found: it goes to the files at `resolve_log_paths`, `logs` reads these
files, and `flush` goes through them. -/
structure OutputFound (h : Host) (fs : Disk) (p : Process) (child : StdStreams)
    (out err : OsStr) : Prop where
  resolved : resolveLogPaths h fs p.info.id p.spec.logsDir p.spec.logsStdout p.spec.logsStderr =
    .ok (out, err)
  written : child = ⟨.file out, .file err⟩
  read : ∀ path ∈ [out, err],
    ∃ source ∈ buildSources h fs p.spec ⟨true, true⟩, source.path = path.toStringLossy
  flushed : ∀ logRoot base, resolveLogRoot h fs p.spec = .ok (logRoot, base) →
    (flushLogs h fs p.info.id p.spec).1 =
      ([out, err].foldl (flushPath logRoot base) { fs := fs }).fs

section

variable {h : Host} {fs : Disk} {p : Process} {child : StdStreams} {out err : OsStr}

/-- `logs` reads both files, as one where their names agree. -/
theorem buildSources_resolved
    (hr : resolveLogPaths h fs p.info.id p.spec.logsDir p.spec.logsStdout p.spec.logsStderr =
      .ok (out, err)) :
    ∀ path ∈ [out, err],
      ∃ source ∈ buildSources h fs p.spec ⟨true, true⟩, source.path = path.toStringLossy := by
  have hp : sourcePaths h fs p.spec = (out.toStringLossy, err.toStringLossy) := by
    rw [p.id_eq] at hr
    rw [sourcePaths, hr]
  have hout : (⟨out.toStringLossy, "STDOUT", 0⟩ : StreamSource) ∈
      buildSources h fs p.spec ⟨true, true⟩ := by
    simp [buildSources, hp]
  intro path hpath
  rcases List.mem_pair.mp hpath with rfl | rfl
  · exact ⟨_, hout, rfl⟩
  · by_cases he : path.toStringLossy = out.toStringLossy
    · exact ⟨_, hout, he.symm⟩
    · exact ⟨⟨path.toStringLossy, "STDERR", 0⟩, by simp [buildSources, hp, he], rfl⟩

theorem flushLogs_resolved
    (hr : resolveLogPaths h fs p.info.id p.spec.logsDir p.spec.logsStdout p.spec.logsStderr =
      .ok (out, err)) (logRoot base : OsStr)
    (hroot : resolveLogRoot h fs p.spec = .ok (logRoot, base)) :
    (flushLogs h fs p.info.id p.spec).1 =
      ([out, err].foldl (flushPath logRoot base) { fs := fs }).fs := by
  rw [p.id_eq] at hr
  simp only [flushLogs, hr, hroot]
  split <;> rfl

theorem outputFound_iff :
    OutputFound h fs p child out err ↔
      resolveLogPaths h fs p.info.id p.spec.logsDir p.spec.logsStdout p.spec.logsStderr =
        .ok (out, err) ∧ child = ⟨.file out, .file err⟩ := by
  constructor
  · intro h
    exact ⟨h.resolved, h.written⟩
  · rintro ⟨hr, hc⟩
    exact ⟨hr, hc, buildSources_resolved hr, flushLogs_resolved hr⟩

end

/-- **The output of a process is found**, whatever its log mode is, exactly where the daemon itself
writes to the log files of the process. -/
theorem child_output_iff (h : Host) (fs : Disk) (os : Os) (p : Process) (daemon : StdStreams)
    (hstart : (p.startProcess h os).isOk = true) :
    ∃ c, prepareCmd h p.spec p.info.id p.info.name = .ok c ∧ h.spawnErr c = none ∧
      ((∃ out err, OutputFound h fs p (c.childStreams daemon) out err) ↔
        ∃ out err,
          resolveLogPaths h fs p.info.id p.spec.logsDir p.spec.logsStdout p.spec.logsStderr =
            .ok (out, err) ∧ daemon = ⟨.file out, .file err⟩) := by
  have hnone : p.startError h = none := by
    cases he : p.startError h with
    | none => rfl
    | some e => simp [Process.startProcess, he, Except.isOk, Except.toBool] at hstart
  rw [Process.startError] at hnone
  split at hnone
  · cases hnone
  · cases hc : prepareCmd h p.spec p.info.id p.info.name with
    | error e => simp [hc] at hnone
    | ok c =>
        refine ⟨c, rfl, by simpa [hc] using hnone, ?_⟩
        simp only [outputFound_iff, prepareCmd_streams hc]

/-- A process whose standard output is logged to `app.log`. -/
def loggedProcess : Process where
  info := { id := demoId, name := displayName (loggedSpec "app.log"),
            ns := displayNs (loggedSpec "app.log") }
  spec := loggedSpec "app.log"
  id_eq := rfl
  name_eq := rfl
  ns_eq := rfl
  cron_ok := rfl

/-- The streams of a daemon that is a service. -/
def journalStreams : StdStreams := ⟨.device "journal", .device "journal"⟩

theorem child_output_iff_journal :
    (loggedProcess.startProcess userHost {}).isOk = true ∧
      ∃ c, prepareCmd userHost loggedProcess.spec loggedProcess.info.id loggedProcess.info.name =
          .ok c ∧ userHost.spawnErr c = none ∧
        ((∃ out err, OutputFound userHost bareDisk loggedProcess (c.childStreams journalStreams)
            out err) ↔
          ∃ out err, resolveLogPaths userHost bareDisk loggedProcess.info.id
              loggedProcess.spec.logsDir loggedProcess.spec.logsStdout
              loggedProcess.spec.logsStderr = .ok (out, err) ∧
            journalStreams = ⟨.file out, .file err⟩) :=
  have h : (loggedProcess.startProcess userHost {}).isOk = true := by decide +kernel
  ⟨h, child_output_iff userHost bareDisk {} loggedProcess journalStreams h⟩

/-- The child of such a daemon writes to the journal. -/
theorem loggedProcess_output_lost :
    (loggedSpec "app.log").logs.map AppLogs.mode = some "file" ∧
      (loggedProcess.startProcess userHost {}).isOk = true ∧
      ∃ c, prepareCmd userHost loggedProcess.spec loggedProcess.info.id loggedProcess.info.name =
          .ok c ∧
        c.childStreams journalStreams = journalStreams ∧
        ¬ ∃ out err, OutputFound userHost bareDisk loggedProcess (c.childStreams journalStreams)
          out err := by
  refine ⟨by decide, by decide +kernel, ?_⟩
  have hok : (prepareCmd userHost loggedProcess.spec loggedProcess.info.id
      loggedProcess.info.name).isOk = true := by decide +kernel
  cases hc : prepareCmd userHost loggedProcess.spec loggedProcess.info.id
      loggedProcess.info.name with
  | error e => simp [hc, Except.isOk, Except.toBool] at hok
  | ok c =>
      refine ⟨c, rfl, prepareCmd_streams hc journalStreams, ?_⟩
      rintro ⟨out, err, h⟩
      have hw := h.written
      rw [prepareCmd_streams hc] at hw
      cases hw

end Unitpm
