import Unitpm.Children

/-! # Children that exit by themselves

A child may end at any time between two operations of the manager.  Nothing in the source notices:
the monitor thread of a process only waits to be cancelled, and the state of an entry is written by
starts and stops alone.

`Backed` says that every running entry has its child.  Every operation keeps it, whatever it does to
other children; the exit of a child keeps it exactly if no running entry is its owner.  So what
`Manager::list` reports as running is running in every run without such exits
(`listed_running_alive`). -/

namespace Unitpm

open Run

/-! ### Running entries have a child -/

/-- Every running entry runs as a live child of its own; other children may be there too. -/
structure Backed (entry : String → Option Process) (os : Os) : Prop where
  nodup : os.pids.Nodup
  pos : ∀ c ∈ os.live, 0 < c.pid
  running : ∀ id p, entry id = some p → p.info.state = .running →
    ∃ c ∈ os.live, c.owner = id ∧ p.RunsAs c.pid

variable {entry : String → Option Process} {os : Os} {h : Host} {d : Daemon} {id : String}
  {p : Process}

theorem Backed.update_idle (hb : Backed entry os) {o : Option Process}
    (hidle : ∀ q, o = some q → q.info.state ≠ .running) :
    Backed (Function.update entry id o) os where
  nodup := hb.nodup
  pos := hb.pos
  running := Overlay.forall_update (fun q hq hqr => absurd hqr (hidle q hq))
    fun k q _ => hb.running k q

theorem Backed.update_same (hb : Backed entry os) {q : Process} (hp : entry id = some p)
    (hst : q.info.state = p.info.state) (hpid : q.info.pid = p.info.pid) (hcmd : q.cmd = p.cmd) :
    Backed (Function.update entry id (some q)) os where
  nodup := hb.nodup
  pos := hb.pos
  running := by
    refine Overlay.forall_update (fun r hr hrr => ?_) fun k r _ => hb.running k r
    obtain rfl := Option.some.inj hr
    obtain ⟨c, hc, hco, h1, h2, h3⟩ := hb.running id p hp (hst ▸ hrr)
    exact ⟨c, hc, hco, hst.trans h1, hpid.trans h2, hcmd.trans h3⟩

theorem Backed.update_started (hb : Backed entry os) (hp : p.RunsAs (h.newPid os.pids))
    (s : AppSpec) : Backed (Function.update entry id (some p)) (os.spawn h id s) where
  nodup := List.nodup_cons.mpr ⟨h.newPid_not_mem _, hb.nodup⟩
  pos := by
    intro c hc
    rcases List.mem_cons.mp hc with rfl | hc
    · exact h.newPid_pos _
    · exact hb.pos c hc
  running := by
    refine Overlay.forall_update (fun q hq _ => ?_) fun k q _ hq hqr => ?_
    · obtain rfl := Option.some.inj hq
      exact ⟨_, List.mem_cons_self, rfl, hp⟩
    · obtain ⟨c, hc, hco⟩ := hb.running k q hq hqr
      exact ⟨c, List.mem_cons_of_mem _ hc, hco⟩

theorem Backed.remove (hb : Backed entry os) {pid : ℕ}
    (hother : ∀ id p, entry id = some p → p.info.state = .running → p.info.pid ≠ pid) :
    Backed entry (os.remove pid) where
  nodup := hb.nodup.sublist (List.filter_sublist.map _)
  pos c hc := hb.pos c (Os.mem_remove.mp hc).1
  running id p hp hr := by
    obtain ⟨c, hc, hco, hra⟩ := hb.running id p hp hr
    refine ⟨c, Os.mem_remove.mpr ⟨hc, fun he => ?_⟩, hco, hra⟩
    exact hother id p hp hr (hra.2.1.trans he)

theorem Backed.id_eq_of_pid_eq (hb : Backed entry os) {k : String} {q : Process}
    (hp : entry id = some p) (hr : p.info.state = .running) (hq : entry k = some q)
    (hqr : q.info.state = .running) (he : p.info.pid = q.info.pid) : id = k := by
  obtain ⟨c, hc, rfl, hra⟩ := hb.running id p hp hr
  obtain ⟨c', hc', rfl, hqa⟩ := hb.running k q hq hqr
  rw [hra.2.1, hqa.2.1] at he
  rw [List.inj_on_of_nodup_map hb.nodup hc hc' he]

/-- A stop by the daemon itself, through the handle. -/
theorem Backed.update_stop_false (hb : Backed entry os) (hp : entry id = some p) :
    Backed (Function.update entry id (some (p.stop h os false).2)) (p.stop h os false).1 ∧
      (p.stop h os false).2.info.state ≠ .running := by
  by_cases hr : p.info.state = .running
  · obtain ⟨c, hc, hco, hra⟩ := hb.running id p hp hr
    have hpos : p.info.pid ≠ 0 := by
      have := hb.pos c hc
      rw [hra.2.1]
      omega
    have hcmd : p.cmd = some p.info.pid := by rw [hra.2.2, hra.2.1]
    rw [Process.stop_false_of_running hr hpos, hcmd, Os.waitOrKill_signalTree]
    have hhalted : p.halted.info.state ≠ .running := by simp [Process.halted, Process.markStopped]
    refine ⟨Backed.remove (hb.update_idle fun q hq => ?_) fun k q hq hqr he => ?_, hhalted⟩
    · obtain rfl := Option.some.inj hq
      exact hhalted
    · by_cases hk : k = id
      · rw [hk, Function.update_self] at hq
        obtain rfl := Option.some.inj hq
        exact hhalted hqr
      · rw [Function.update_of_ne hk] at hq
        exact hk (hb.id_eq_of_pid_eq hq hqr hp hr he)
  · rw [Process.stop_false_of_not_running hr, ← hp, Function.update_eq_self]
    exact ⟨hb, hr⟩

/-! ### The operations -/

namespace Daemon

/-- Every running entry of the daemon has its child. -/
def Backed (d : Daemon) : Prop := Unitpm.Backed d.processes.lookup d.os

theorem backed_startWithSpec (hd : d.Backed) (s : AppSpec) : (d.startWithSpec h s).1.Backed := by
  apply startWithSpec_invariant Backed hd
  intro p _ _
  unfold Backed
  rw [put_lookup]
  exact Unitpm.Backed.update_started hd ⟨rfl, rfl, rfl⟩ _

theorem backed_addStoppedSpec (hd : d.Backed) (s : AppSpec) :
    (d.addStoppedSpec h s).1.Backed := by
  apply addStoppedSpec_invariant Backed hd
  intro p hn
  obtain ⟨-, hst, -⟩ := Process.new_ok hn
  unfold Backed
  rw [put_lookup]
  apply Unitpm.Backed.update_idle hd
  intro q hq
  obtain rfl := Option.some.inj hq
  simp [hst]

theorem backed_stop (hd : d.Backed) : (d.stop h id).1.Backed := by
  unfold Backed
  rw [stop_lookup, stop_os]
  apply Unitpm.Backed.update_idle hd
  intro q hq
  obtain ⟨p, -, rfl⟩ := Option.map_eq_some_iff.mp hq
  simp [Process.userStopped, Process.markStopped]

theorem backed_delete (hd : d.Backed) : (d.delete h id).1.Backed := by
  unfold Backed
  rw [delete_lookup, delete_os]
  exact Unitpm.Backed.update_idle hd (by simp)

theorem backed_shutdownProcess (hd : d.Backed) : (d.shutdownProcess h id).Backed := by
  cases hp : d.processes.lookup id with
  | none => rw [shutdownProcess_of_none hp]; exact hd
  | some p =>
      rw [shutdownProcess_of_lookup hp]
      unfold Backed
      rw [put_lookup, Process.stop_false_id, Registry.info_id hp]
      exact (Unitpm.Backed.update_stop_false hd hp).1

theorem backed_restart (hd : d.Backed) : (d.restart h id).1.Backed := by
  -- the entry the restart stops
  have key : ∀ p q os, d.processes.lookup id = some p → p.bumped.stop h d.os false = (os, q) →
      Unitpm.Backed (Function.update d.processes.lookup id (some q)) os ∧ q.info.id = id := by
    intro p q os hp hq
    have hb : Unitpm.Backed (Function.update d.processes.lookup id (some p.bumped)) d.os :=
      Unitpm.Backed.update_same hd hp rfl rfl rfl
    obtain ⟨hs, -⟩ := hb.update_stop_false (h := h) (Function.update_self ..)
    rw [Function.update_idem, hq] at hs
    exact ⟨hs, (Process.bumped_stop_fields hq).2.1.trans (Registry.info_id hp)⟩
  refine restart_invariant Backed hd (fun p q os hp hq _ => ?_) fun p q os hp hq _ => ?_
  · obtain ⟨hs, hid⟩ := key p q os hp hq
    unfold Backed
    rw [put_lookup, hid]
    exact hs
  · obtain ⟨hs, hid⟩ := key p q os hp hq
    have hstart : ∀ r : Process, r.RunsAs (h.newPid os.pids) → r.info.id = id →
        (d.put (os.spawn h q.info.id q.spec) r).Backed := by
      intro r hra hrid
      have hb : Unitpm.Backed (Function.update _ id (some r)) (os.spawn h id q.spec) :=
        hs.update_started hra q.spec
      rw [Function.update_idem] at hb
      unfold Backed
      rw [put_lookup, hrid, put_os, hid]
      exact hb
    exact ⟨fun _ => hstart _ ⟨rfl, rfl, rfl⟩ hid, fun _ => hstart _ ⟨rfl, rfl, rfl⟩ hid⟩

theorem backed_reset (hd : d.Backed) : (d.reset id).1.Backed := by
  apply reset_invariant Backed hd
  intro p hp
  unfold Backed
  rw [put_lookup, show _ = id from Registry.info_id hp]
  exact Unitpm.Backed.update_same hd hp rfl rfl rfl

theorem backed_reload (hd : d.Backed) : (d.reload h id).1.Backed := by
  cases hl : d.specDir.loadSpec h id with
  | error e => rw [reload_of_error hl]; exact hd
  | ok t =>
      rw [(reload_of_load hl).1]
      apply backed_startWithSpec
      unfold Backed
      rw [dropForReload_lookup, dropForReload_os]
      exact Unitpm.Backed.update_idle hd (by simp)

theorem backed_restoreSpec (hd : d.Backed) (s : AppSpec) : (d.restoreSpec h s).Backed :=
  restoreSpec_invariant Backed (fun _ => backed_addStoppedSpec hd s)
    fun _ => backed_startWithSpec hd s

theorem backed_scale {ns base : String} {target : ℕ} (hd : d.Backed) :
    (d.scale h ns base target).1.Backed := by
  rcases scale_cases h d ns base target with
    he | ⟨-, -, he⟩ | ⟨template, -, -, -, he⟩
  · rw [he]
    exact hd
  · rw [he]
    exact deleteAll_invariant Backed (fun _ _ => True) (fun d id hd _ => backed_delete hd)
      (fun _ _ _ _ => trivial) hd fun _ _ => trivial
  · rw [he]
    refine createInstances_invariant Backed (fun _ _ => True) ?_
      (fun _ _ _ _ _ _ _ _ => trivial) hd fun _ _ => trivial
    intro d i _ name _ hd _
    exact createInstance_invariant Backed (fun _ _ hd => hd)
      (fun d hd => backed_startWithSpec hd _) hd

theorem backed_step (hd : d.Backed) (a : Host × Op) : (d.step a).Backed := by
  obtain ⟨h, op⟩ := a
  cases op with
  | startWithSpec s => exact backed_startWithSpec hd s
  | addStoppedSpec s => exact backed_addStoppedSpec hd s
  | restore =>
      show (d.restore h).1.Backed
      unfold Daemon.restore
      cases hl : d.specDir.loadAll h with
      | error e => exact hd
      | ok specs => exact Run.invariant Backed (fun d s hd => backed_restoreSpec hd s) specs hd
  | stop id => exact backed_stop hd
  | delete id => exact backed_delete hd
  | restart id => exact backed_restart hd
  | reset id => exact backed_reset hd
  | reload id => exact backed_reload hd
  | scale ns base target => exact backed_scale hd
  | shutdown => exact Run.invariant Backed (fun _ _ => backed_shutdownProcess) _ hd

theorem backed_fresh (maxProcesses : ℕ) (maxErr : Option String) (dir : SpecDir) :
    (Daemon.fresh maxProcesses maxErr dir).Backed where
  nodup := List.nodup_nil
  pos := by intro c hc; cases hc
  running := by intro id p hp; cases hp

end Daemon

/-! ### Runs with exits -/

/-- An operation of the manager, or a child that ends by itself. -/
inductive Occurrence where
  | op (a : Host × Op)
  | exit (pid : ℕ)

/-- An exit changes nothing in the registry. -/
def Daemon.after (d : Daemon) : Occurrence → Daemon
  | .op a => d.step a
  | .exit pid => { d with os := d.os.remove pid }

/-- The event is not the exit of a child whose entry is running. -/
def Occurrence.Expected (d : Daemon) : Occurrence → Prop
  | .op _ => True
  | .exit pid => ∀ id p, d.processes.lookup id = some p → p.info.state = .running →
      p.info.pid ≠ pid

/-- The child that an entry reports has not exited. -/
def Daemon.Alive (d : Daemon) (i : ProcessInfo) : Prop :=
  ∃ c ∈ d.os.live, c.owner = i.id ∧ c.pid = i.pid

theorem Daemon.backed_after (d : Daemon) (e : Occurrence) (hd : d.Backed) (he : e.Expected d) :
    (d.after e).Backed := by
  cases e with
  | op a => exact backed_step hd a
  | exit pid => exact Unitpm.Backed.remove hd he

/-- **Running means alive.**  In every run of operations and exits without the exit of a child whose
entry is running, what `Manager::list` (or `Process::info`) reports as running has its child. -/
theorem listed_running_alive (maxProcesses : ℕ) (maxErr : Option String) (dir : SpecDir)
    (l : List Occurrence)
    (hl : Along Daemon.after (fun d e => e.Expected d) (Daemon.fresh maxProcesses maxErr dir) l)
    (h : Host) (i : ProcessInfo)
    (hi : i ∈ (l.foldl Daemon.after (Daemon.fresh maxProcesses maxErr dir)).list h)
    (hrun : i.state = .running) :
    (l.foldl Daemon.after (Daemon.fresh maxProcesses maxErr dir)).Alive i := by
  have hd : (l.foldl Daemon.after (Daemon.fresh maxProcesses maxErr dir)).Backed :=
    Along.invariant Daemon.Backed Daemon.backed_after
      (Daemon.backed_fresh maxProcesses maxErr dir) hl
  obtain ⟨p, hp, rfl⟩ := Daemon.mem_list.mp hi
  obtain ⟨c, hc, hco, hra⟩ := hd.running p.info.id p hp hrun
  exact ⟨c, hc, hco, hra.2.1.symm⟩

/-- A process is started and stopped, its child ends, and it is started again. -/
def stoppedExit : List Occurrence :=
  [.op (userHost, .startWithSpec (plainSpec demoId)), .op (userHost, .stop demoId), .exit 1,
    .op (userHost, .restart demoId)]

theorem stoppedExit_expected :
    Along Daemon.after (fun d e => e.Expected d) (Daemon.fresh 0 none ∅) stoppedExit := by
  refine ⟨trivial, trivial, fun id p hp hr => absurd hr ?_, trivial, trivial⟩
  have hall : ∀ i ∈ ((stoppedExit.take 2).foldl Daemon.after (Daemon.fresh 0 none ∅)).list userHost,
      i.state ≠ .running := by decide +kernel
  exact hall p.info (Daemon.mem_list.mpr ⟨p, by rw [Registry.info_id hp]; exact hp, rfl⟩)

theorem listed_running_alive_stoppedExit :
    ∃ i ∈ (stoppedExit.foldl Daemon.after (Daemon.fresh 0 none ∅)).list userHost,
      i.state = .running ∧ (stoppedExit.foldl Daemon.after (Daemon.fresh 0 none ∅)).Alive i := by
  obtain ⟨i, hi, hrun⟩ :
      ∃ i ∈ (stoppedExit.foldl Daemon.after (Daemon.fresh 0 none ∅)).list userHost,
        i.state = .running := by decide +kernel
  exact ⟨i, hi, hrun,
    listed_running_alive 0 none ∅ stoppedExit stoppedExit_expected userHost i hi hrun⟩

/-- A child ends while its entry is running. -/
def runningExit : List Occurrence :=
  [.op (userHost, .startWithSpec (plainSpec demoId)), .exit 1]

/-- The process is still listed as running. -/
theorem exited_listed_running :
    (runningExit.foldl Daemon.after (Daemon.fresh 0 none ∅)).os.live = [] ∧
      ∃ i ∈ (runningExit.foldl Daemon.after (Daemon.fresh 0 none ∅)).list userHost,
        i.state = .running := by
  decide +kernel

end Unitpm
