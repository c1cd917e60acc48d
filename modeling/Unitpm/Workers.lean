import Unitpm.Lib.Run
import Unitpm.Process

/-! # The auxiliary workers of a process

A process has three workers beside its child: the cron scheduler, the file watcher and the monitor
thread.  `start_process` starts them all; `Process::stop` shuts them down, but only behind the early
return for a pid of zero, and a stop by the user has cleared the pid by then.  The cancel flag that
ends the monitor is set by a stop of the daemon and never cleared, so the monitor of any later start
ends at once.

`WorkersFollow` says that the workers follow the state of the process.  In a run of the operations
of one process it holds throughout if and only if no step is one of these two
(`workersFollow_iff_along`). -/

namespace Unitpm

open Run

namespace Process

/-! ### Runs of one process -/

/-- What is done to one process. -/
inductive Op where
  | startProcess
  | stop (byUser : Bool)
  | restart
  | resetBackoff
deriving DecidableEq

/-- One operation on the machine it finds; a start that fails changes nothing. -/
def step (s : Os × Process) (a : Host × Op) : Os × Process :=
  match a.2 with
  | .startProcess => (s.2.startProcess a.1 s.1).toOption.getD s
  | .stop byUser => s.2.stop a.1 s.1 byUser
  | .restart => ((s.2.restart a.1 s.1).1, (s.2.restart a.1 s.1).2.1)
  | .resetBackoff => (s.1, s.2.resetBackoff)

/-! ### Workers -/

/-- Every worker the process is to have is at work: the scheduler of its cron interval, the watcher
if watching is enabled, and a monitor that has not been cancelled. -/
structure Active (p : Process) : Prop where
  cron : p.spec.cron.isSome → ∃ c, p.cronScheduler = some c ∧ c.running = true
  watcher : watchEnabled p.spec → ∃ w, p.watcher = some w ∧ w.running = true
  monitor : p.monitor = true ∧ p.cancel = false

/-- No worker is at work. -/
structure Quiet (p : Process) : Prop where
  cron : ∀ c, p.cronScheduler = some c → c.running = false
  watcher : ∀ w, p.watcher = some w → w.running = false
  monitor : p.cancel = true ∨ p.monitor = false

/-- The workers follow the state of the process. -/
structure WorkersFollow (p : Process) : Prop where
  running : p.info.state = .running → p.Active
  stopped : p.info.state = .stopped → p.Quiet

/-- The command of the process can be prepared and spawned. -/
def launches (h : Host) (p : Process) : Bool :=
  match prepareCmd h p.spec p.info.id p.info.name with
  | .error _ => false
  | .ok cmd => (h.spawnErr cmd).isNone

/-- The step neither stops a running process for the user nor launches a child once the workers
have been cancelled; a restart cancels those of a running process itself. -/
def KeepsWorkers (s : Os × Process) (a : Host × Op) : Prop :=
  match a.2 with
  | .startProcess =>
      s.2.info.state = .running ∨ s.2.cancel = false ∨ s.2.launches a.1 = false
  | .stop byUser => byUser = true → s.2.info.state ≠ .running
  | .restart =>
      s.2.noAutoRestart = true ∨ (s.2.info.state ≠ .running ∧ s.2.cancel = false) ∨
        s.2.launches a.1 = false
  | .resetBackoff => True

instance (s : Os × Process) : (a : Host × Op) → Decidable (KeepsWorkers s a)
  | (_, .startProcess) => inferInstanceAs (Decidable (_ ∨ _ ∨ _))
  | (_, .stop _) => inferInstanceAs (Decidable (_ → _))
  | (_, .restart) => inferInstanceAs (Decidable (_ ∨ _ ∨ _))
  | (_, .resetBackoff) => isTrue trivial

variable {h : Host} {os : Os} {p : Process}

/-! ### One step -/

theorem startError_eq_none_iff :
    p.startError h = none ↔ p.info.state ≠ .running ∧ p.launches h = true := by
  unfold startError launches
  by_cases hr : p.info.state = .running
  · simp [hr]
  · rw [if_neg hr]
    cases prepareCmd h p.spec p.info.id p.info.name with
    | error e => simp
    | ok cmd => simp [hr]

/-- A process between two operations: it runs under a pid or is stopped, and has a scheduler if its
spec has a cron interval. -/
structure Settled (p : Process) : Prop where
  state : (p.info.state = .running ∧ p.info.pid ≠ 0) ∨ p.info.state = .stopped
  cron : p.spec.cron.isSome → p.cronScheduler.isSome

theorem Settled.stopped_of_ne (hp : p.Settled) (hr : p.info.state ≠ .running) :
    p.info.state = .stopped :=
  hp.state.resolve_left fun hrun => hr hrun.1

theorem new_workers {s : AppSpec} (hn : new h s = .ok p) : p.Settled ∧ p.WorkersFollow := by
  unfold new at hn
  split at hn
  · cases hn
  · split at hn
    · cases hn
    · obtain rfl := Except.ok.inj hn
      refine ⟨⟨.inr rfl, by simp⟩, ⟨by simp, fun _ => ⟨?_, by simp, .inr rfl⟩⟩⟩
      intro c hc
      obtain ⟨schedule, -, rfl⟩ := Option.map_eq_some_iff.mp hc
      rfl

theorem Settled.started (hp : p.Settled) : (p.started h (h.newPid os.pids)).Settled where
  state := .inl ⟨rfl, (h.newPid_pos _).ne'⟩
  cron hc := by
    have := hp.cron hc
    simpa [Process.started] using this

theorem Settled.halted (hp : p.Settled) : p.halted.Settled where
  state := .inr rfl
  cron hc := by
    have := hp.cron hc
    simpa [Process.halted, markStopped] using this

theorem started_workersFollow (hp : p.Settled) (pid : ℕ) :
    (p.started h pid).WorkersFollow ↔ p.cancel = false := by
  constructor
  · intro hw
    exact (hw.running rfl).monitor.2
  · intro hc
    refine ⟨fun _ => ⟨fun hcron => ?_, fun hwatch => ?_, rfl, hc⟩, fun hs => nomatch hs⟩
    · obtain ⟨c, hsome⟩ := Option.isSome_iff_exists.mp (hp.cron hcron)
      exact ⟨c.start, by simp [started, hsome], rfl⟩
    · exact ⟨⟨true⟩, if_pos hwatch, rfl⟩

theorem halted_quiet : p.halted.Quiet where
  cron c hc := by
    obtain ⟨c, -, rfl⟩ := Option.map_eq_some_iff.mp hc
    rfl
  watcher w hw := by
    obtain ⟨w, -, rfl⟩ := Option.map_eq_some_iff.mp hw
    rfl
  monitor := .inl rfl

theorem halted_workersFollow : p.halted.WorkersFollow where
  running hr := by cases hr
  stopped _ := halted_quiet

theorem WorkersFollow.congr {q : Process} (hp : p.WorkersFollow) (hspec : q.spec = p.spec)
    (hstate : q.info.state = p.info.state) (hcron : q.cronScheduler = p.cronScheduler)
    (hwatch : q.watcher = p.watcher) (hmon : q.monitor = p.monitor) (hcan : q.cancel = p.cancel) :
    q.WorkersFollow := by
  refine ⟨fun hr => ?_, fun hs => ?_⟩
  · obtain ⟨h1, h2, h3⟩ := hp.running (hstate ▸ hr)
    exact ⟨by rwa [hspec, hcron], by rwa [hspec, hwatch], by rwa [hmon, hcan]⟩
  · obtain ⟨h1, h2, h3⟩ := hp.stopped (hstate ▸ hs)
    exact ⟨by rwa [hcron], by rwa [hwatch], by rwa [hmon, hcan]⟩

theorem userStopped_workersFollow (hp : p.Settled) (hw : p.WorkersFollow) :
    p.userStopped.WorkersFollow ↔ p.info.state ≠ .running := by
  constructor
  · intro hu hr
    obtain ⟨hmon, hcan⟩ := (hw.running hr).monitor
    rcases (hu.stopped rfl).monitor with hc | hm
    · exact absurd (hcan.symm.trans hc) Bool.false_ne_true
    · exact absurd (hm.symm.trans hmon) Bool.false_ne_true
  · intro hr
    exact hw.congr rfl (hp.stopped_of_ne hr).symm rfl rfl rfl rfl

/-- The process as a restart finds it when it comes to its start. -/
def readied (p : Process) : Process :=
  if p.info.state = .running then p.bumped.halted else p.bumped

/-- A restart is a stop by the daemon and a start, unless the user has stopped the process. -/
theorem restart_process (h : Host) (os : Os) (hp : p.Settled) (hna : p.noAutoRestart = false) :
    ∃ os' : Os, (p.restart h os).2.1 =
      if p.launches h then p.readied.started h (h.newPid os'.pids) else p.readied := by
  have hreset : p.resetBackoff = p := by
    rw [resetBackoff, ← hna]
  have hstop : (p.bumped.stop h os false).2 = p.readied := by
    unfold readied
    rcases hp.state with ⟨hr, hpid⟩ | hs
    · rw [if_pos hr, stop_false_of_running (p := p.bumped) hr hpid]
    · have hr : p.info.state ≠ .running := by rw [hs]; simp
      rw [if_neg hr, stop_false_of_not_running (p := p.bumped) hr]
  have hidle : p.readied.info.state ≠ .running := by
    unfold readied
    split
    · intro hs
      cases hs
    · assumption
  have hlaunch : p.readied.launches h = p.launches h := by
    unfold readied
    split <;> rfl
  have hres : p.resetBackoff.restart h os = _ := restart_resetBackoff
  rw [hreset] at hres
  refine ⟨(p.bumped.stop h os false).1, ?_⟩
  rw [hres]
  simp only [startProcess, hstop]
  cases hl : p.launches h with
  | true => rw [startError_eq_none_iff.mpr ⟨hidle, hlaunch.trans hl⟩, if_pos rfl]
  | false =>
      cases he : p.readied.startError h with
      | none =>
          have := (startError_eq_none_iff.mp he).2
          rw [hlaunch, hl] at this
          cases this
      | some e => rw [if_neg Bool.false_ne_true]

theorem Settled.readied (hp : p.Settled) : p.readied.Settled := by
  unfold Process.readied
  split
  · exact Settled.halted ⟨hp.state, hp.cron⟩
  · exact ⟨hp.state, hp.cron⟩

theorem readied_workersFollow (hw : p.WorkersFollow) : p.readied.WorkersFollow := by
  unfold readied
  split
  · exact halted_workersFollow
  · exact hw.congr rfl rfl rfl rfl rfl rfl

theorem readied_cancel :
    p.readied.cancel = false ↔ p.info.state ≠ .running ∧ p.cancel = false := by
  unfold readied
  split
  · rename_i hr
    simp [halted, hr]
  · rename_i hr
    simp [bumped, hr]

/-! ### The process after each operation -/

theorem step_startProcess (h : Host) (os : Os) (p : Process) :
    (step (os, p) (h, .startProcess)).2 =
      if p.startError h = none then p.started h (h.newPid os.pids) else p := by
  simp only [step, startProcess]
  cases p.startError h with
  | none => rfl
  | some e => rfl

theorem step_stop_true (h : Host) (os : Os) (p : Process) :
    (step (os, p) (h, .stop true)).2 = p.userStopped := by
  simp only [step, stop_true]

theorem step_stop_false (h : Host) (os : Os) (hp : p.Settled) :
    (step (os, p) (h, .stop false)).2 = if p.info.state = .running then p.halted else p := by
  rcases hp.state with ⟨hr, hpid⟩ | hs
  · simp only [step, stop_false_of_running hr hpid, if_pos hr]
  · have hr : p.info.state ≠ .running := by rw [hs]; simp
    simp only [step, stop_false_of_not_running hr, if_neg hr]

theorem step_restart (h : Host) (os : Os) (hp : p.Settled) :
    ∃ os' : Os, (step (os, p) (h, .restart)).2 =
      if p.noAutoRestart then p
      else if p.launches h then p.readied.started h (h.newPid os'.pids) else p.readied := by
  cases hna : p.noAutoRestart with
  | true =>
      refine ⟨os, ?_⟩
      simp only [step, restart, hna, if_true]
  | false =>
      obtain ⟨os', hq⟩ := restart_process h os hp hna
      exact ⟨os', hq⟩

theorem Settled.step {s : Os × Process} (hs : s.2.Settled) (a : Host × Op) :
    (step s a).2.Settled := by
  obtain ⟨os, p⟩ := s
  obtain ⟨h, op⟩ := a
  cases op with
  | startProcess =>
      rw [step_startProcess]
      split
      · exact hs.started
      · exact hs
  | stop byUser =>
      cases byUser with
      | true =>
          rw [step_stop_true]
          exact ⟨.inr rfl, hs.cron⟩
      | false =>
          rw [step_stop_false h os hs]
          split
          · exact hs.halted
          · exact hs
  | restart =>
      obtain ⟨os', hq⟩ := step_restart h os hs
      rw [hq]
      split
      · exact hs
      · split
        · exact hs.readied.started
        · exact hs.readied
  | resetBackoff => exact ⟨hs.state, hs.cron⟩

/-- One step keeps the workers in line exactly if it neither stops a running process for the user
nor launches a child under a cancelled monitor. -/
theorem step_workersFollow {s : Os × Process} (a : Host × Op) (hs : s.2.Settled)
    (hw : s.2.WorkersFollow) : (step s a).2.WorkersFollow ↔ KeepsWorkers s a := by
  obtain ⟨os, p⟩ := s
  obtain ⟨h, op⟩ := a
  cases op with
  | startProcess =>
      rw [step_startProcess]
      by_cases he : p.startError h = none
      · obtain ⟨hr, hl⟩ := startError_eq_none_iff.mp he
        rw [if_pos he, started_workersFollow hs]
        simp [KeepsWorkers, hr, hl]
      · have hk : p.info.state = .running ∨ p.launches h = false := by
          by_contra! hc
          exact he (startError_eq_none_iff.mpr ⟨hc.1, by simpa using hc.2⟩)
        rw [if_neg he]
        refine ⟨fun _ => ?_, fun _ => hw⟩
        exact hk.imp_right .inr
  | stop byUser =>
      cases byUser with
      | true =>
          rw [step_stop_true, userStopped_workersFollow hs hw]
          simp [KeepsWorkers]
      | false =>
          rw [step_stop_false h os hs]
          refine ⟨fun _ => by simp [KeepsWorkers], fun _ => ?_⟩
          split
          · exact halted_workersFollow
          · exact hw
  | restart =>
      obtain ⟨os', hq⟩ := step_restart h os hs
      rw [hq]
      cases hna : p.noAutoRestart with
      | true =>
          rw [if_pos rfl]
          exact ⟨fun _ => .inl hna, fun _ => hw⟩
      | false =>
          rw [if_neg Bool.false_ne_true]
          cases hl : p.launches h with
          | true =>
              rw [if_pos rfl, started_workersFollow hs.readied, readied_cancel]
              simp [KeepsWorkers, hna, hl]
          | false =>
              rw [if_neg Bool.false_ne_true]
              exact ⟨fun _ => .inr (.inr hl), fun _ => readied_workersFollow hw⟩
  | resetBackoff =>
      exact ⟨fun _ => trivial, fun _ => hw.congr rfl rfl rfl rfl rfl rfl⟩

/-! ### Whole runs -/

/-- **Workers along a run.** From a new process on, the workers follow its state at every point of a
run exactly if the run never stops the process for the user while it runs, and never launches a
child after a stop by the daemon. -/
theorem workersFollow_iff_along {s : AppSpec} (hn : new h s = .ok p) (os : Os)
    (l : List (Host × Op)) :
    (∀ m, m <+: l → (m.foldl step (os, p)).2.WorkersFollow) ↔
      Along step KeepsWorkers (os, p) l := by
  obtain ⟨hset, hw⟩ := new_workers hn
  apply forall_prefix_iff_along (fun s : Os × Process => s.2.Settled)
    (fun s : Os × Process => s.2.WorkersFollow)
  · intro s a hs
    exact hs.step a
  · intro s a hs hw
    exact step_workersFollow a hs hw
  · exact hset
  · exact hw

/-- A process with a cron interval. -/
def cronSpec : AppSpec := { plainSpec demoId with cron := some "@every 60s" }

/-- The process `Process::new` makes of it. -/
def cronProcess : Process where
  info := { id := demoId, name := "api", ns := "default" }
  spec := cronSpec
  cronScheduler := some (.new "@every 60s")
  id_eq := .refl demoId
  name_eq := .refl "api"
  ns_eq := .refl "default"
  cron_ok := by decide +kernel

theorem new_cronSpec : new userHost cronSpec = .ok cronProcess := by decide +kernel

/-- A run in which the workers are in line throughout: started, then stopped by the daemon. -/
theorem workersFollow_start_stop :
    new userHost cronSpec = .ok cronProcess ∧
      ∀ m, m <+: [(userHost, Op.startProcess), (userHost, Op.stop false)] →
        (m.foldl step ({}, cronProcess)).2.WorkersFollow :=
  ⟨new_cronSpec, (workersFollow_iff_along new_cronSpec {} _).mpr
    (by simp [Along, KeepsWorkers, cronProcess])⟩

/-- The process, started and then stopped by the user or restarted. -/
def startedAnd (op : Op) : Process :=
  ([(userHost, Op.startProcess), (userHost, op)].foldl step ({}, cronProcess)).2

/-- A stop by the user leaves the scheduler and the monitor of the process at work, and the monitor
of a restarted process is cancelled before it starts. -/
theorem workers_out_of_line :
    new userHost cronSpec = .ok cronProcess ∧
      ((startedAnd (.stop true)).info.state = .stopped ∧
        (startedAnd (.stop true)).cronScheduler.any CronScheduler.running = true ∧
        (startedAnd (.stop true)).monitor = true ∧ (startedAnd (.stop true)).cancel = false ∧
        ¬ (startedAnd (.stop true)).WorkersFollow) ∧
      (startedAnd .restart).info.state = .running ∧ (startedAnd .restart).cancel = true ∧
        ¬ (startedAnd .restart).WorkersFollow := by
  refine ⟨new_cronSpec, ⟨by decide +kernel, by decide +kernel, by decide +kernel,
    by decide +kernel, fun hw => ?_⟩, by decide +kernel, by decide +kernel, fun hw => ?_⟩
  · rcases (hw.stopped (by decide +kernel)).monitor with hc | hm
    · revert hc
      decide +kernel
    · revert hm
      decide +kernel
  · have hc := (hw.running (by decide +kernel)).monitor.2
    revert hc
    decide +kernel

end Process

end Unitpm
