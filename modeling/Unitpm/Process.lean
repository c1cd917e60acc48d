import Unitpm.Spawn

/-! # One managed process

`internal/daemon/manager/process.rs` and `lifecycle.rs`: what `Process::new`, `start_process`,
`stop` and `restart` do to the fields of a process and to the children of the daemon.

The operating system is the list of live children, each with the id and the spec it was
spawned for, and the list of specs a child was ever spawned from.  A spawn adds a child under a
pid that no live child has; a signal or a kill that names a pid removes it. -/

namespace Unitpm

open Rust.Str

/-! ### Children -/

/-- A child of the daemon. -/
structure Child where
  pid : ℕ
  owner : String
  spec : AppSpec
deriving DecidableEq

structure Os where
  live : List Child := []
  spawned : List AppSpec := []
deriving DecidableEq

namespace Os

def pids (os : Os) : List ℕ := os.live.map Child.pid

/-- A successful `Command::spawn`. -/
def spawn (h : Host) (os : Os) (owner : String) (s : AppSpec) : Os where
  live := { pid := h.newPid os.pids, owner := owner, spec := s } :: os.live
  spawned := s :: os.spawned

/-- The child `pid` is gone. -/
def remove (os : Os) (pid : ℕ) : Os := { os with live := os.live.filter (fun c => c.pid ≠ pid) }

/-- `signal_tree` with the stop signal, which the child may ignore. -/
def signalTree (h : Host) (os : Os) (pid : ℕ) : Os :=
  if h.obeysSignal pid then os.remove pid else os

/-- The polling loop of `stop`: `try_wait` on the handle sees the exit, or the deadline passes
and the handle and the whole tree are killed. -/
def waitOrKill (os : Os) (cmd : Option ℕ) (pid : ℕ) : Os :=
  match cmd with
  | some c => if c ∈ os.pids then (os.remove c).remove pid else os
  | none => os.remove pid

end Os

/-! ### Cron intervals -/

/-- `parse_simple_duration`, in seconds; the product is taken in `u64`. -/
def parseSimpleDuration (s : String) : Except String ℕ :=
  let s := trim s.toList
  if s = [] then .error "empty"
  else
    let num := s.takeWhile Char.isDigit
    let unit := s.dropWhile Char.isDigit
    if unit = [] then .error "missing unit"
    else if num = [] then .error "cannot parse integer from empty string"
    else match parseUnsigned (2 ^ 64 - 1) num with
      | none => .error "number too large to fit in target type"
      | some n =>
          if unit = ['s'] then .ok (n * 1 % 2 ^ 64)
          else if unit = ['m'] then .ok (n * 60 % 2 ^ 64)
          else if unit = ['h'] then .ok (n * 3600 % 2 ^ 64)
          else if unit = ['d'] then .ok (n * 86400 % 2 ^ 64)
          else .error ("unsupported unit " ++ debug (String.ofList unit))

structure CronScheduler where
  schedule : String
  interval : Option ℕ
  running : Bool := false
deriving DecidableEq

namespace CronScheduler

def new (schedule : String) : CronScheduler where
  schedule := schedule
  interval := (stripPrefix? "@every " schedule).bind fun rest =>
    (parseSimpleDuration (String.ofList (trim rest.toList))).toOption

def start (c : CronScheduler) : CronScheduler := { c with running := true }

def stop (c : CronScheduler) : CronScheduler := { c with running := false }

end CronScheduler

/-- The cron check of `Process::new`. -/
def cronCheck (cron : Option String) : Except SpawnError Unit :=
  match cron.bind (stripPrefix? "@every ") with
  | none => .ok ()
  | some rest =>
      match parseSimpleDuration (String.ofList (trim rest.toList)) with
      | .error e => .error (.envFileParse ("ERR_LIMITS: invalid cron interval: " ++ e))
      | .ok d =>
          if d < 5 then .error (.envFileParse "ERR_LIMITS: cron interval must be >= 5s")
          else if d > 24 * 3600 then
            .error (.envFileParse "ERR_LIMITS: cron interval must be <= 24h")
          else .ok ()

/-! ### Processes -/

structure FileWatcher where
  running : Bool
deriving DecidableEq

/-- The name shown for a spec: its own, or the file name of what it runs. -/
def displayName (s : AppSpec) : String :=
  if s.name ≠ "" then s.name
  else
    let path := if s.exec.kind = "entry" then s.exec.entry else s.exec.command
    ((path.bind fun p => Rust.Path.fileName p.toList).map String.ofList).getD ""

/-- The namespace shown for a spec. -/
def displayNs (s : AppSpec) : String := (nonEmpty s.ns).getD defaultNamespace

/-- A managed application.  `cmd` is the pid of the `Child` handle, `monitor` says that a
monitor thread was started and not joined.  The identity shown in `info` is that of the spec,
which no operation but a change of the `disabled` flag touches, and whose cron interval
`Process::new` has checked. -/
structure Process where
  info : ProcessInfo
  spec : AppSpec
  cmd : Option ℕ := none
  stoppedByUser : Bool := false
  noAutoRestart : Bool := false
  cronScheduler : Option CronScheduler := none
  cancel : Bool := false
  monitor : Bool := false
  watcher : Option FileWatcher := none
  id_eq : info.id = spec.id
  name_eq : info.name = displayName spec
  ns_eq : info.ns = displayNs spec
  cron_ok : cronCheck spec.cron = .ok ()
deriving DecidableEq

namespace Process

/-- `Process::new`; every caller passes the spec's own id. -/
def new (h : Host) (s : AppSpec) : Except SpawnError Process :=
  if ¬ h.uuidOk s.id then .error .invalidExecType
  else match hc : cronCheck s.cron with
    | .error e => .error e
    | .ok _ =>
        .ok
          { info := { id := s.id, name := displayName s, ns := displayNs s }
            spec := s
            cronScheduler := s.cron.map CronScheduler.new
            id_eq := rfl
            name_eq := rfl
            ns_eq := rfl
            cron_ok := hc }

/-- `format_iso8601_now`. -/
def formatIso8601Now (h : Host) : String := "1970-01-01T" ++ toString h.now ++ "Z"

/-- Whether `start_process` starts a watcher. -/
def watchEnabled (s : AppSpec) : Bool :=
  match s.watch with
  | some w => w.enabled && orEmpty s.cwd ≠ ""
  | none => false

/-- The fields after a successful spawn. -/
def started (h : Host) (p : Process) (pid : ℕ) : Process :=
  { p with
    cmd := some pid
    info := { p.info with
      pid := pid
      state := .running
      createdAt := if orEmpty p.info.createdAt = "" then some (formatIso8601Now h)
        else p.info.createdAt
      watch := watchEnabled p.spec || p.info.watch }
    stoppedByUser := false
    cronScheduler := p.cronScheduler.map CronScheduler.start
    monitor := true
    watcher := if watchEnabled p.spec then some { running := true } else p.watcher }

/-- Why `start_process` does not start the process, if it does not. -/
def startError (h : Host) (p : Process) : Option String :=
  if p.info.state = .running then some "process already started"
  else match prepareCmd h p.spec p.info.id p.info.name with
    | .error e => some e.toText
    | .ok cmd => (h.spawnErr cmd).map fun e => "failed to start process: " ++ e

/-- `start_process`; nothing has changed when it fails. -/
def startProcess (h : Host) (os : Os) (p : Process) : Except String (Os × Process) :=
  match startError h p with
  | some e => .error e
  | none => .ok (os.spawn h p.info.id p.spec, started h p (h.newPid os.pids))

/-- `reset_backoff`, as far as its fields are read again. -/
def resetBackoff (p : Process) : Process := { p with noAutoRestart := false }

/-- `state := Stopped; pid := 0`. -/
def markStopped (p : Process) : Process :=
  { p with info := { p.info with state := .stopped, pid := 0 } }

/-- The spec with its `disabled` flag cleared. -/
def enabled (p : Process) : Process := { p with spec := { p.spec with disabled := false } }

/-- The fields after a stop by the user. -/
def userStopped (p : Process) : Process :=
  { p.markStopped with
    noAutoRestart := true
    stoppedByUser := p.stoppedByUser || decide (p.info.state = .running) }

/-- The fields after the child is gone. -/
def halted (p : Process) : Process :=
  { p.markStopped with
    cmd := none
    cronScheduler := p.cronScheduler.map CronScheduler.stop
    cancel := true
    monitor := false
    watcher := p.watcher.map fun _ => { running := false } }

/-- `Process::stop`; every path returns `Ok`.  With `byUser` the pid is cleared before it is
read. -/
def stop (h : Host) (os : Os) (p : Process) (byUser : Bool) : Os × Process :=
  let p := if byUser then { p with noAutoRestart := true } else p
  if p.info.state ≠ .running then (os, if byUser then p.markStopped else p)
  else
    let p := if byUser then { p.markStopped with stoppedByUser := true } else p
    let pid := p.info.pid
    if pid = 0 then (os, p)
    else ((os.signalTree h pid).waitOrKill p.cmd pid, p.halted)

/-- `Process::restart`. -/
def restart (h : Host) (os : Os) (p : Process) : Os × Process × Except String Unit :=
  if p.noAutoRestart then (os, p, .ok ())
  else
    let p := { p with info := { p.info with restarts := p.info.restarts + 1 } }
    let (os, p) := p.stop h os false
    match startProcess h os p with
    | .error e => (os, p, .error e)
    | .ok (os, p) => (os, p, .ok ())

/-! ### What the operations do -/

variable {h : Host} {os : Os} {p : Process}

@[simp] theorem userStopped_id : p.userStopped.info.id = p.info.id := rfl

@[simp] theorem started_id (pid : ℕ) : (p.started h pid).info.id = p.info.id := rfl

theorem new_ok {s : AppSpec} (hn : new h s = .ok p) :
    p.spec = s ∧ p.info.state = .stopped ∧ p.cmd = none ∧ p.stoppedByUser = false ∧
      p.noAutoRestart = false ∧ h.uuidOk s.id = true ∧ cronCheck s.cron = .ok () := by
  unfold new at hn
  split at hn
  · cases hn
  · rename_i hu
    split at hn
    · cases hn
    · rename_i hc
      obtain rfl := Except.ok.inj hn
      exact ⟨rfl, rfl, rfl, rfl, rfl, by simpa using hu, hc⟩

theorem id_of_new {s : AppSpec} (hn : new h s = .ok p) : p.info.id = s.id := by
  rw [p.id_eq, (new_ok hn).1]

theorem startError_congr {q : Process} (hp : p.info.state ≠ .running)
    (hq : q.info.state ≠ .running) (hs : p.spec = q.spec) : startError h p = startError h q := by
  have hid : p.info.id = q.info.id := by rw [p.id_eq, q.id_eq, hs]
  have hname : p.info.name = q.info.name := by rw [p.name_eq, q.name_eq, hs]
  rw [startError, startError, if_neg hp, if_neg hq, hs, hid, hname]

theorem stop_true : p.stop h os true = (os, p.userStopped) := by
  unfold stop userStopped
  by_cases hr : p.info.state = .running
  · simp [hr, markStopped]
  · simp [hr, markStopped]

theorem stop_false_of_not_running (hr : p.info.state ≠ .running) : p.stop h os false = (os, p) := by
  simp [stop, hr]

theorem stop_false_of_running (hr : p.info.state = .running) (hp : p.info.pid ≠ 0) :
    p.stop h os false = ((os.signalTree h p.info.pid).waitOrKill p.cmd p.info.pid, p.halted) := by
  simp [stop, hr, hp]

/-- The entry a manual restart stops: backoff reset, one restart more. -/
def bumped (p : Process) : Process :=
  { p with noAutoRestart := false, info := { p.info with restarts := p.info.restarts + 1 } }

/-- A manual restart is a stop by the daemon followed by a start, and leaves the process
stopped when the start fails. -/
theorem restart_resetBackoff : p.resetBackoff.restart h os =
    (let q := p.bumped.stop h os false
     match startProcess h q.1 q.2 with
     | .error e => (q.1, q.2, .error e)
     | .ok r => (r.1, r.2, .ok ())) := by
  unfold restart
  rw [if_neg (by simp [resetBackoff])]
  have hb : { p.resetBackoff with info := { p.resetBackoff.info with
      restarts := p.resetBackoff.info.restarts + 1 } } = p.bumped := rfl
  simp only [hb]
  rcases startProcess h (p.bumped.stop h os false).1 (p.bumped.stop h os false).2 with e | ⟨os', q⟩
  · rfl
  · rfl

theorem running_of_stop_false (hr : (p.stop h os false).2.info.state = .running) :
    p.info.state = .running := by
  by_contra hn
  rw [stop_false_of_not_running hn] at hr
  exact hn hr

theorem stop_false_fields (h : Host) (os : Os) (p : Process) : (p.stop h os false).2.spec = p.spec ∧
    (p.stop h os false).2.stoppedByUser = p.stoppedByUser ∧
    (p.stop h os false).2.noAutoRestart = p.noAutoRestart := by
  unfold stop
  simp only [Bool.false_eq_true, if_false]
  split
  · exact ⟨rfl, rfl, rfl⟩
  · split <;> exact ⟨rfl, rfl, rfl⟩

@[simp] theorem stop_false_id : (p.stop h os false).2.info.id = p.info.id := by
  rw [id_eq, (stop_false_fields h os p).1, id_eq]

/-- What a manual restart has before its start: the spec and the mark of the user as they were,
automatic restarts allowed again. -/
theorem bumped_stop_fields {os' : Os} {q : Process} (hq : p.bumped.stop h os false = (os', q)) :
    q.spec = p.spec ∧ q.info.id = p.info.id ∧ q.noAutoRestart = false ∧
      (p.info.state ≠ .running → q = p.bumped) := by
  obtain ⟨hspec, -, hna⟩ := stop_false_fields h os p.bumped
  have hid : (p.bumped.stop h os false).2.info.id = p.bumped.info.id := stop_false_id
  rw [hq] at hspec hna hid
  refine ⟨hspec, hid, hna, fun hr => ?_⟩
  · rw [stop_false_of_not_running (p := p.bumped) hr] at hq
    exact (Prod.mk.inj hq).2.symm

end Process

namespace Os

variable {h : Host} {os : Os}

theorem mem_remove {pid : ℕ} {c : Child} :
    c ∈ (os.remove pid).live ↔ c ∈ os.live ∧ c.pid ≠ pid := by
  simp [remove]

theorem remove_eq_self {pid : ℕ} (hp : pid ∉ os.pids) : os.remove pid = os := by
  have : os.live.filter (fun c => c.pid ≠ pid) = os.live := by
    rw [List.filter_eq_self]
    intro c hc
    have : c.pid ≠ pid := fun e => hp (e ▸ List.mem_map.mpr ⟨c, hc, rfl⟩)
    simpa using this
  rw [remove, this]

theorem pid_not_mem_remove (pid : ℕ) : pid ∉ (os.remove pid).pids := by
  intro hm
  obtain ⟨c, hc, e⟩ := List.mem_map.mp hm
  exact (mem_remove.mp hc).2 e

/-- A stop through the handle of the child removes exactly that child, whether it obeys the
signal or has to be killed. -/
theorem waitOrKill_signalTree (pid : ℕ) :
    (os.signalTree h pid).waitOrKill (some pid) pid = os.remove pid := by
  unfold signalTree
  split
  · exact if_neg (pid_not_mem_remove pid)
  · by_cases hp : pid ∈ os.pids
    · exact (if_pos hp).trans (remove_eq_self (pid_not_mem_remove pid))
    · exact (if_neg hp).trans (remove_eq_self hp).symm

theorem signalTree_spawned (pid : ℕ) : (os.signalTree h pid).spawned = os.spawned := by
  unfold signalTree
  split <;> rfl

theorem waitOrKill_spawned (cmd : Option ℕ) (pid : ℕ) :
    (os.waitOrKill cmd pid).spawned = os.spawned := by
  unfold waitOrKill
  split
  · split <;> rfl
  · rfl

end Os

theorem Process.stop_spawned {h : Host} {os : Os} {p : Process} {byUser : Bool} :
    (p.stop h os byUser).1.spawned = os.spawned := by
  cases byUser with
  | true => rw [stop_true]
  | false =>
      by_cases hr : p.info.state = .running
      · by_cases hp : p.info.pid = 0
        · simp [stop, hr, hp]
        · rw [stop_false_of_running hr hp, Os.waitOrKill_spawned, Os.signalTree_spawned]
      · rw [stop_false_of_not_running hr]

end Unitpm
