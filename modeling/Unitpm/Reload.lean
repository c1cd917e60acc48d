import Unitpm.ManagerLib

/-! # Reloading an edited spec

`Manager::reload` reads the stored spec, saves it enabled, stops and drops the old process and
starts the stored spec.  The stop in the middle saves the old in-memory spec, disabled, to the
same file, and the entry is gone before the start is known to succeed.  So

* a reload that returns `Ok` leaves the right entry and the wrong file
  (`reload_ok_keeps_spec_iff`);
* a reload that returns `Err` after the spec was read leaves no entry
  (`reload_err_keeps_entry_iff`). -/

namespace Unitpm

namespace Daemon

variable {h : Host} {d : Daemon} {id : String} {p : Process}

theorem reloadedSpec_withNamespace (t : AppSpec) :
    reloadedSpec t.withNamespace = reloadedSpec t := by
  rw [reloadedSpec, AppSpec.withNamespace_withNamespace, reloadedSpec]

theorem reload_ok_state {t : AppSpec} (hp : d.processes.lookup id = some p)
    (hl : d.specDir.loadSpec h id = .ok t) (hid : t.id = id) (hw : h.Saves)
    (hc : (d.remove id).CanStart h (reloadedSpec t)) :
    (d.reload h id).1.specDir.lookup id = some (.spec { p.spec with disabled := true }) ∧
      ∃ q, (d.reload h id).1.processes.lookup id = some q ∧ q.spec = reloadedSpec t ∧
        q.info.state = .running := by
  obtain ⟨q, hq, he⟩ := canStart_dropForReload.mpr hc
  obtain ⟨hspec, -⟩ := Process.new_ok (admission_ok hq).2
  have hqid : q.info.id = id := by rw [q.id_eq, hspec]; exact hid
  rw [(reload_of_load hl).1, startWithSpec_of_canStart hq he]
  constructor
  · rw [put_specDir, dirAfterStart, if_neg (by simp [reloadedSpec])]
    show (d.dropForReload h id (reloadedSpec t)).specDir.file id = _
    rw [dropForReload_file (s := reloadedSpec t) hw hid, Function.update_self, hp]
    rfl
  · refine ⟨q.started h (h.newPid (d.dropForReload h id (reloadedSpec t)).os.pids), ?_, hspec, rfl⟩
    rw [put_lookup, Process.started_id, hqid, Function.update_self]

theorem reload_err_state {t : AppSpec} (hl : d.specDir.loadSpec h id = .ok t)
    (hc : ¬ (d.remove id).CanStart h (reloadedSpec t)) :
    (∃ e, (d.reload h id).2 = .error e) ∧ (d.reload h id).1.processes.lookup id = none := by
  have hn : ¬ (d.dropForReload h id (reloadedSpec t)).CanStart h (reloadedSpec t) :=
    fun hc' => hc (canStart_dropForReload.mp hc')
  obtain ⟨e, he⟩ := startWithSpec_of_not_canStart hn
  constructor
  · unfold reload
    rw [hl]
    simp only [he]
    exact ⟨_, rfl⟩
  · rw [(reload_of_load hl).1, he, dropForReload_lookup, Function.update_self]

end Daemon

/-- File and entry hold the stored spec, namespace filled in and enabled. -/
def HoldsReloaded (d : Daemon) (id : String) (t : AppSpec) : Prop :=
  d.specDir.lookup id = some (.spec (Daemon.reloadedSpec t)) ∧
    ∃ q, d.processes.lookup id = some q ∧ q.spec = Daemon.reloadedSpec t

/-- **Reload and the stored spec**: a reload meets its description only by failing.  When it
returns `Ok`, the entry holds the stored spec but the file holds the old one, disabled. -/
theorem reload_ok_keeps_spec_iff (h : Host) (d : Daemon) (id : String) (p : Process) (t : AppSpec)
    (hp : d.processes.lookup id = some p) (hf : d.specDir.lookup id = some (.spec t))
    (hid : t.id = id) (hr : h.specReadErr id = none) (hw : h.Saves) :
    (((d.reload h id).2 = .ok () → HoldsReloaded (d.reload h id).1 id t) ↔
        ¬ (d.remove id).CanStart h (Daemon.reloadedSpec t)) ∧
      ((d.reload h id).2 = .ok () →
        (d.reload h id).1.specDir.lookup id = some (.spec { p.spec with disabled := true }) ∧
        ∃ q, (d.reload h id).1.processes.lookup id = some q ∧ q.spec = Daemon.reloadedSpec t) := by
  have hl := SpecDir.readSpec_of_file hf hr
  have hrs := Daemon.reloadedSpec_withNamespace t
  have hok : (d.reload h id).2 = .ok () ↔ (d.remove id).CanStart h (Daemon.reloadedSpec t) := by
    rw [(Daemon.reload_of_load hl).2, Daemon.canStart_dropForReload, hrs]
  have hstate := fun hc => Daemon.reload_ok_state hp hl hid hw (hrs.symm ▸ hc)
  rw [hrs] at hstate
  refine ⟨⟨fun hprop hc => ?_, fun hn hres => absurd (hok.mp hres) hn⟩, fun hres => ?_⟩
  · obtain ⟨hfile, -⟩ := hprop (hok.mpr hc)
    obtain ⟨hfile', -⟩ := hstate hc
    rw [hfile'] at hfile
    have := congrArg AppSpec.disabled (SpecFile.spec.inj (Option.some.inj hfile))
    cases this
  · obtain ⟨hfile, q, hq, hs, -⟩ := hstate (hok.mp hres)
    exact ⟨hfile, q, hq, hs⟩

/-- The plain process is running while `t` is stored for it. -/
def runningOver (t : AppSpec) : Daemon :=
  (Daemon.fresh 0 none (AList.singleton demoId (.spec t))).step
    (userHost, .startWithSpec (plainSpec demoId))

/-- The spec edited to sleep for a minute. -/
def longerSpec : AppSpec :=
  { plainSpec demoId with
    exec := { kind := "command", command := some "sleep", args := some ["60"] } }

theorem reload_ok_keeps_spec_iff_longer :
    let d := runningOver longerSpec
    (((d.reload userHost demoId).2 = .ok () →
        HoldsReloaded (d.reload userHost demoId).1 demoId longerSpec) ↔
        ¬ (d.remove demoId).CanStart userHost (Daemon.reloadedSpec longerSpec)) ∧
      ((d.reload userHost demoId).2 = .ok () →
        (d.reload userHost demoId).1.specDir.lookup demoId =
          some (.spec { ((d.processes.lookup demoId).get (by decide)).spec with
            disabled := true }) ∧
        ∃ q, (d.reload userHost demoId).1.processes.lookup demoId = some q ∧
          q.spec = Daemon.reloadedSpec longerSpec) :=
  reload_ok_keeps_spec_iff userHost (runningOver longerSpec) demoId
    (((runningOver longerSpec).processes.lookup demoId).get (by decide)) longerSpec
    (Option.some_get _).symm (by decide) rfl rfl fun _ _ => rfl

/-- The edit is lost on disk, and the process will not be started at the next boot. -/
theorem reload_loses_edit :
    let d := runningOver longerSpec
    (d.reload userHost demoId).2 = .ok () ∧
      (d.reload userHost demoId).1.specDir.lookup demoId =
        some (.spec { plainSpec demoId with disabled := true }) ∧
      ¬ HoldsReloaded (d.reload userHost demoId).1 demoId longerSpec := by
  refine ⟨by decide +kernel, by decide +kernel, fun h => ?_⟩
  exact absurd h.1 (by decide +kernel)

/-- **Reload and the entry**: a failed reload keeps the process registered exactly when it failed
to read the spec; where the spec can be read, this takes that it can also be started. -/
theorem reload_err_keeps_entry_iff (h : Host) (d : Daemon) (id : String) (p : Process)
    (hp : d.processes.lookup id = some p) :
    ((∃ e, (d.reload h id).2 = .error e) →
        ((d.reload h id).1.processes.lookup id).isSome = true) ↔
      ∀ t, d.specDir.loadSpec h id = .ok t → (d.remove id).CanStart h (Daemon.reloadedSpec t) := by
  cases hl : d.specDir.loadSpec h id with
  | error e =>
      rw [Daemon.reload_of_error hl, hp]
      simp
  | ok t =>
      constructor
      · intro hprop t' ht
        obtain rfl := Except.ok.inj ht
        by_contra hc
        obtain ⟨herr, hnone⟩ := Daemon.reload_err_state hl hc
        have := hprop herr
        rw [hnone] at this
        cases this
      · rintro hc ⟨e, he⟩
        have hok := (Daemon.reload_of_load hl).2.mpr (Daemon.canStart_dropForReload.mpr (hc t rfl))
        rw [hok] at he
        cases he

theorem reload_err_keeps_entry_iff_longer :
    let d := runningOver longerSpec
    ((∃ e, (d.reload userHost demoId).2 = .error e) →
        ((d.reload userHost demoId).1.processes.lookup demoId).isSome = true) ↔
      ∀ t, d.specDir.loadSpec userHost demoId = .ok t →
        (d.remove demoId).CanStart userHost (Daemon.reloadedSpec t) :=
  reload_err_keeps_entry_iff userHost (runningOver longerSpec) demoId
    (((runningOver longerSpec).processes.lookup demoId).get (by decide)) (Option.some_get _).symm

/-- The spec edited to run in a directory that is not there. -/
def strayedSpec : AppSpec := { plainSpec demoId with cwd := some "/gone" }

/-- The process is no longer registered after the reload that failed. -/
theorem reload_drops_entry :
    let d := runningOver strayedSpec
    (d.processes.lookup demoId).isSome = true ∧
      (d.reload userHost demoId).2 = .error (.reload
        "spawn: ERR_BAD_REQUEST: invalid cwd: not a directory") ∧
      (d.reload userHost demoId).1.processes.lookup demoId = none := by
  decide

end Unitpm
