import Unitpm.ManagerLib

/-! # Children and registry entries

The link between a child and its entry is kept in four places: the entry's state, its pid, its
handle `cmd`, and the registry itself.  `Owned` says that the four agree.

Every operation keeps the link unless it stops a running process on behalf of the user, or
overwrites its entry with a stopped one: `Process::stop(true)` clears the pid before it reads
it, and `add_stopped_spec` inserts without looking.  `Op.Spares` says that a step does neither,
and the runs made of such steps keep the link in every state
(`children_owned_of_run`). -/

namespace Unitpm

open Run

/-! ### The link -/

/-- `p` runs as the child `pid`, in all of its fields. -/
def Process.RunsAs (p : Process) (pid : ℕ) : Prop :=
  p.info.state = .running ∧ p.info.pid = pid ∧ p.cmd = some pid

/-- Entries and live children are linked one to one. -/
structure Owned (entry : String → Option Process) (os : Os) : Prop where
  nodup : os.pids.Nodup
  pos : ∀ c ∈ os.live, 0 < c.pid
  owner : ∀ c ∈ os.live, ∃ p, entry c.owner = some p ∧ p.RunsAs c.pid
  running : ∀ id p, entry id = some p → p.info.state = .running →
    ∃ c ∈ os.live, c.owner = id ∧ p.RunsAs c.pid
  idle : ∀ id p, entry id = some p → p.info.state ≠ .running → p.cmd = none

variable {entry : String → Option Process} {os : Os} {h : Host} {d : Daemon} {id : String}
  {p : Process}

/-- Whether the entry of `id` is a running process. -/
def RunsIn (entry : String → Option Process) (id : String) : Prop :=
  ∃ p, entry id = some p ∧ p.info.state = .running

theorem Owned.eq_of_pid_eq (ho : Owned entry os) {c c' : Child} (hc : c ∈ os.live)
    (hc' : c' ∈ os.live) (he : c.pid = c'.pid) : c = c' :=
  List.inj_on_of_nodup_map ho.nodup hc hc' he

theorem Owned.eq_of_owner_eq (ho : Owned entry os) {c c' : Child} (hc : c ∈ os.live)
    (hc' : c' ∈ os.live) (he : c.owner = c'.owner) : c = c' := by
  obtain ⟨p, hp, hr⟩ := ho.owner c hc
  obtain ⟨q, hq, hr'⟩ := ho.owner c' hc'
  rw [he, hq] at hp
  obtain rfl := Option.some.inj hp
  exact ho.eq_of_pid_eq hc hc' (hr.2.1.symm.trans hr'.2.1)

theorem Owned.owner_of_cmd (ho : Owned entry os) {c : Child} (hc : c ∈ os.live)
    (hp : entry id = some p) (hcmd : p.cmd = some c.pid) : c.owner = id ∧ p.RunsAs c.pid := by
  by_cases hr : p.info.state = .running
  · obtain ⟨c', hc', rfl, hr'⟩ := ho.running id p hp hr
    have he : c'.pid = c.pid := Option.some.inj (hr'.2.2.symm.trans hcmd)
    obtain rfl := ho.eq_of_pid_eq hc' hc he
    exact ⟨rfl, hr'⟩
  · rw [ho.idle id p hp hr] at hcmd
    cases hcmd

theorem Owned.not_owner_of_not_running (ho : Owned entry os) (hr : ¬ RunsIn entry id) {c : Child}
    (hc : c ∈ os.live) : c.owner ≠ id := by
  rintro rfl
  obtain ⟨p, hp, hra⟩ := ho.owner c hc
  exact hr ⟨p, hp, hra.1⟩

/-! ### Changes of one entry -/

theorem Owned.update_idle (ho : Owned entry os) (hr : ¬ RunsIn entry id) {o : Option Process}
    (hidle : ∀ q, o = some q → q.info.state ≠ .running ∧ q.cmd = none) :
    Owned (Function.update entry id o) os where
  nodup := ho.nodup
  pos := ho.pos
  owner := by
    intro c hc
    rw [Function.update_of_ne (ho.not_owner_of_not_running hr hc)]
    exact ho.owner c hc
  running := Overlay.forall_update (fun q hq hqr => absurd hqr (hidle q hq).1)
    fun k q _ => ho.running k q
  idle := Overlay.forall_update (fun q hq _ => (hidle q hq).2) fun k q _ => ho.idle k q

/-- A change of one entry in none of the fields of the link. -/
theorem Owned.update_same (ho : Owned entry os) {q : Process} (hp : entry id = some p)
    (hst : q.info.state = p.info.state) (hpid : q.info.pid = p.info.pid) (hcmd : q.cmd = p.cmd) :
    Owned (Function.update entry id (some q)) os := by
  have hsame : ∀ {pid : ℕ}, p.RunsAs pid → q.RunsAs pid := by
    rintro pid ⟨h1, h2, h3⟩
    exact ⟨hst.trans h1, hpid.trans h2, hcmd.trans h3⟩
  refine ⟨ho.nodup, ho.pos, ?owner, ?running, ?idle⟩
  case owner =>
    intro c hc
    obtain ⟨r, hr, hra⟩ := ho.owner c hc
    by_cases hk : c.owner = id
    · rw [hk, hp] at hr
      obtain rfl := Option.some.inj hr
      exact ⟨q, by rw [hk, Function.update_self], hsame hra⟩
    · exact ⟨r, by rw [Function.update_of_ne hk]; exact hr, hra⟩
  case running =>
    refine Overlay.forall_update (fun r hr hrr => ?_) fun k r _ => ho.running k r
    obtain rfl := Option.some.inj hr
    obtain ⟨c, hc, hco, hra⟩ := ho.running id p hp (hst ▸ hrr)
    exact ⟨c, hc, hco, hsame hra⟩
  case idle =>
    refine Overlay.forall_update (fun r hr hrr => ?_) fun k r _ => ho.idle k r
    obtain rfl := Option.some.inj hr
    rw [hcmd]
    exact ho.idle id p hp (hst ▸ hrr)

/-- A new child for an entry that does not run. -/
theorem Owned.update_started (ho : Owned entry os) (hr : ¬ RunsIn entry id)
    (hp : p.RunsAs (h.newPid os.pids)) (s : AppSpec) :
    Owned (Function.update entry id (some p)) (os.spawn h id s) where
  nodup := List.nodup_cons.mpr ⟨h.newPid_not_mem _, ho.nodup⟩
  pos := by
    intro c hc
    rcases List.mem_cons.mp hc with rfl | hc
    · exact h.newPid_pos _
    · exact ho.pos c hc
  owner := by
    intro c hc
    rcases List.mem_cons.mp hc with rfl | hc
    · exact ⟨p, Function.update_self .., hp⟩
    · rw [Function.update_of_ne (ho.not_owner_of_not_running hr hc)]
      exact ho.owner c hc
  running := by
    refine Overlay.forall_update (fun q hq _ => ?_) fun k q _ hq hqr => ?_
    · obtain rfl := Option.some.inj hq
      exact ⟨_, List.mem_cons_self, rfl, hp⟩
    · obtain ⟨c, hc, hco⟩ := ho.running k q hq hqr
      exact ⟨c, List.mem_cons_of_mem _ hc, hco⟩
  idle := by
    refine Overlay.forall_update (fun q hq hqr => ?_) fun k q _ => ho.idle k q
    obtain rfl := Option.some.inj hq
    exact absurd hp.1 hqr

/-- A running process whose child is removed with it. -/
theorem Owned.update_halted (ho : Owned entry os) (hp : entry id = some p)
    (hr : p.info.state = .running) :
    Owned (Function.update entry id (some p.halted)) (os.remove p.info.pid) := by
  obtain ⟨c₀, hc₀, rfl, hra⟩ := ho.running id p hp hr
  have hother : ∀ c ∈ (os.remove p.info.pid).live, c ∈ os.live ∧ c.owner ≠ c₀.owner := by
    intro c hc
    obtain ⟨hc, hne⟩ := Os.mem_remove.mp hc
    refine ⟨hc, fun he => hne ?_⟩
    rw [ho.eq_of_owner_eq hc hc₀ he, hra.2.1]
  refine ⟨?_, fun c hc => ho.pos c (hother c hc).1, fun c hc => ?_,
    Overlay.forall_update (fun q hq hqr => ?_) fun k q hk hq hqr => ?_,
    Overlay.forall_update (fun q hq _ => ?_) fun k q _ => ho.idle k q⟩
  · exact ho.nodup.sublist (List.filter_sublist.map _)
  · rw [Function.update_of_ne (hother c hc).2]
    exact ho.owner c (hother c hc).1
  · obtain rfl := Option.some.inj hq
    cases hqr
  · obtain ⟨c, hc, rfl, hqa⟩ := ho.running k q hq hqr
    refine ⟨c, Os.mem_remove.mpr ⟨hc, fun he => hk ?_⟩, rfl, hqa⟩
    rw [ho.eq_of_pid_eq hc hc₀ (he.trans hra.2.1)]
  · obtain rfl := Option.some.inj hq
    rfl

theorem Owned.update_stop_false (ho : Owned entry os) (hp : entry id = some p) :
    Owned (Function.update entry id (some (p.stop h os false).2)) (p.stop h os false).1 ∧
      (p.stop h os false).2.info.state ≠ .running ∧ (p.stop h os false).2.cmd = none := by
  by_cases hr : p.info.state = .running
  · obtain ⟨c, hc, rfl, hra⟩ := ho.running id p hp hr
    have hpos : p.info.pid ≠ 0 := by
      have := ho.pos c hc
      rw [hra.2.1]
      omega
    have hcmd : p.cmd = some p.info.pid := by rw [hra.2.2, hra.2.1]
    rw [Process.stop_false_of_running hr hpos, hcmd, Os.waitOrKill_signalTree]
    exact ⟨ho.update_halted hp hr, by simp [Process.halted, Process.markStopped], rfl⟩
  · rw [Process.stop_false_of_not_running hr, ← hp, Function.update_eq_self]
    exact ⟨ho, hr, ho.idle id p hp hr⟩

/-! ### The operations -/

namespace Daemon

/-- The link between the registry and the children of a daemon. -/
def Linked (d : Daemon) : Prop := Owned d.processes.lookup d.os

/-- The entry of `id` is a running process. -/
def RunningAt (d : Daemon) (id : String) : Prop := RunsIn d.processes.lookup id

theorem linked_startWithSpec (hd : d.Linked) (s : AppSpec) : (d.startWithSpec h s).1.Linked := by
  apply startWithSpec_invariant Linked hd
  intro p hp _
  obtain ⟨hn, hnew⟩ := admission_ok hp
  have hid : p.info.id = s.id := Process.id_of_new hnew
  have hr : ¬ d.RunningAt p.info.id := by
    rintro ⟨q, hq, -⟩
    rw [hid, hn] at hq
    cases hq
  unfold Linked
  rw [put_lookup]
  exact Owned.update_started hd hr ⟨rfl, rfl, rfl⟩ _

theorem linked_addStoppedSpec (hd : d.Linked) {s : AppSpec}
    (hs : d.RunningAt s.id → ∃ e, Process.new h s = .error e) :
    (d.addStoppedSpec h s).1.Linked := by
  apply addStoppedSpec_invariant Linked hd
  intro p hn
  obtain ⟨rfl, hst, hcmd, -⟩ := Process.new_ok hn
  have hr : ¬ d.RunningAt p.spec.id := fun hr => by
    obtain ⟨e, he⟩ := hs hr
    rw [hn] at he
    cases he
  unfold Linked
  rw [put_lookup]
  apply Owned.update_idle hd (by rwa [p.id_eq])
  rintro q hq
  obtain rfl := Option.some.inj hq
  exact ⟨by simp [hst], hcmd⟩

theorem linked_stop (hd : d.Linked) (hr : ¬ d.RunningAt id) : (d.stop h id).1.Linked := by
  unfold Linked
  rw [stop_lookup, stop_os]
  apply Owned.update_idle hd hr
  intro q hq
  obtain ⟨p, hp, rfl⟩ := Option.map_eq_some_iff.mp hq
  exact ⟨by simp [Process.userStopped, Process.markStopped],
    hd.idle id p hp fun hs => hr ⟨p, hp, hs⟩⟩

theorem linked_delete (hd : d.Linked) (hr : ¬ d.RunningAt id) : (d.delete h id).1.Linked := by
  unfold Linked
  rw [delete_lookup, delete_os]
  exact Owned.update_idle hd hr (by simp)

theorem runningAt_of_delete {k : String} (hr : (d.delete h id).1.RunningAt k) : d.RunningAt k := by
  obtain ⟨q, hq, hqr⟩ := hr
  rw [delete_lookup] at hq
  by_cases hk : k = id
  · rw [hk, Function.update_self] at hq
    cases hq
  · rw [Function.update_of_ne hk] at hq
    exact ⟨q, hq, hqr⟩

theorem linked_shutdownProcess (hd : d.Linked) : (d.shutdownProcess h id).Linked := by
  cases hp : d.processes.lookup id with
  | none => rw [shutdownProcess_of_none hp]; exact hd
  | some p =>
      rw [shutdownProcess_of_lookup hp]
      unfold Linked
      rw [put_lookup, Process.stop_false_id, Registry.info_id hp]
      exact (Owned.update_stop_false hd hp).1

theorem linked_shutdown (hd : d.Linked) : (d.shutdown h).Linked :=
  Run.invariant Linked (fun _ _ => linked_shutdownProcess) _ hd

theorem linked_restart (hd : d.Linked) : (d.restart h id).1.Linked := by
  -- the entry the restart stops is linked, and not running once it is stopped
  have key : ∀ p q os, d.processes.lookup id = some p → p.bumped.stop h d.os false = (os, q) →
      Owned (Function.update d.processes.lookup id (some q)) os ∧ q.info.state ≠ .running ∧
        q.info.id = id := by
    intro p q os hp hq
    have hb : Owned (Function.update d.processes.lookup id (some p.bumped)) d.os :=
      Owned.update_same hd hp rfl rfl rfl
    obtain ⟨hs, hst, -⟩ := hb.update_stop_false (h := h) (Function.update_self ..)
    rw [Function.update_idem, hq] at hs
    rw [hq] at hst
    exact ⟨hs, hst, (Process.bumped_stop_fields hq).2.1.trans (Registry.info_id hp)⟩
  refine restart_invariant Linked hd (fun p q os hp hq _ => ?_) fun p q os hp hq _ => ?_
  · obtain ⟨hs, -, hid⟩ := key p q os hp hq
    unfold Linked
    rw [put_lookup, hid]
    exact hs
  · obtain ⟨hs, hst, hid⟩ := key p q os hp hq
    have hr : ¬ RunsIn (Function.update d.processes.lookup id (some q)) id := by
      rintro ⟨r, hr, hrr⟩
      rw [Function.update_self] at hr
      obtain rfl := Option.some.inj hr
      exact hst hrr
    have hstart : ∀ r : Process, r.RunsAs (h.newPid os.pids) → r.info.id = id →
        (d.put (os.spawn h q.info.id q.spec) r).Linked := by
      intro r hra hrid
      have := hs.update_started (h := h) hr hra q.spec
      rw [Function.update_idem] at this
      unfold Linked
      rw [put_lookup, hrid, put_os, hid]
      exact this
    exact ⟨fun _ => hstart _ ⟨rfl, rfl, rfl⟩ hid, fun _ => hstart _ ⟨rfl, rfl, rfl⟩ hid⟩

theorem linked_reset (hd : d.Linked) : (d.reset id).1.Linked := by
  apply reset_invariant Linked hd
  intro p hp
  unfold Linked
  rw [put_lookup, show _ = id from Registry.info_id hp]
  exact Owned.update_same hd hp rfl rfl rfl

theorem linked_reload (hd : d.Linked)
    (hr : d.RunningAt id → ∃ e, d.specDir.loadSpec h id = .error e) :
    (d.reload h id).1.Linked := by
  cases hl : d.specDir.loadSpec h id with
  | error e => rw [reload_of_error hl]; exact hd
  | ok t =>
      have hn : ¬ d.RunningAt id := fun h' => by
        obtain ⟨e, he⟩ := hr h'
        rw [hl] at he
        cases he
      rw [(reload_of_load hl).1]
      apply linked_startWithSpec
      unfold Linked
      rw [dropForReload_lookup, dropForReload_os]
      exact Owned.update_idle hd hn (by simp)

/-- The guard of one iteration of `restore`: a stopped spec does not land on a running process. -/
def RestoreSpares (h : Host) (d : Daemon) (s : AppSpec) : Prop :=
  s.disabled = true → d.RunningAt s.id → ∃ e, Process.new h s = .error e

theorem linked_restoreSpec {s : AppSpec} (hd : d.Linked) (hs : d.RestoreSpares h s) :
    (d.restoreSpec h s).Linked :=
  restoreSpec_invariant Linked (fun hdis => linked_addStoppedSpec hd (hs hdis))
    fun _ => linked_startWithSpec hd s

theorem linked_scale {ns base : String} {target : ℕ} (hd : d.Linked)
    (hs : target ≤ 1024 → ∀ m ∈ (d.scaleSnapshot h (scaleNs ns) base).members.drop target,
      ¬ d.RunningAt m.2) : (d.scale h ns base target).1.Linked := by
  rcases scale_cases h d ns base target with
    he | ⟨ht, -, he⟩ | ⟨template, -, -, -, he⟩
  · rw [he]
    exact hd
  · rw [he]
    refine deleteAll_invariant Linked (fun d k => ¬ d.RunningAt k)
      (fun d id hd hr => linked_delete hd hr)
      (fun d id k hr hr' => hr (runningAt_of_delete hr')) hd fun k hk => ?_
    obtain ⟨m, hm, rfl⟩ := List.mem_map.mp (List.mem_reverse.mp hk)
    exact hs ht m hm
  · rw [he]
    refine createInstances_invariant Linked (fun _ _ => True) ?_
      (fun _ _ _ _ _ _ _ _ => trivial) hd fun _ _ => trivial
    intro d i _ name _ hd _
    exact createInstance_invariant Linked (fun _ _ hd => hd)
      (fun d hd => linked_startWithSpec hd _) hd

end Daemon

/-! ### Runs -/

/-- The steps that neither stop a running process on behalf of the user nor overwrite it. -/
def Op.Spares (d : Daemon) (a : Host × Op) : Prop :=
  match a.2 with
  | .addStoppedSpec s => d.RunningAt s.id → ∃ e, Process.new a.1 s = .error e
  | .restore => ∀ specs, d.specDir.loadAll a.1 = .ok specs →
      Along (Daemon.restoreSpec a.1) (Daemon.RestoreSpares a.1) d specs
  | .stop id => ¬ d.RunningAt id
  | .delete id => ¬ d.RunningAt id
  | .reload id => d.RunningAt id → ∃ e, d.specDir.loadSpec a.1 id = .error e
  | .scale ns base target => target ≤ 1024 →
      ∀ m ∈ (d.scaleSnapshot a.1 (Daemon.scaleNs ns) base).members.drop target, ¬ d.RunningAt m.2
  | _ => True

/-- One step that spares the running processes keeps the link. -/
theorem Daemon.linked_step (d : Daemon) (a : Host × Op) (hd : d.Linked) (ha : Op.Spares d a) :
    (d.step a).Linked := by
  obtain ⟨h, op⟩ := a
  cases op with
  | startWithSpec s => exact linked_startWithSpec hd s
  | addStoppedSpec s => exact linked_addStoppedSpec hd ha
  | restore =>
      show (d.restore h).1.Linked
      unfold Daemon.restore
      cases hl : d.specDir.loadAll h with
      | error e => exact hd
      | ok specs =>
          exact Along.invariant Linked (fun d s hd hs => linked_restoreSpec hd hs) hd (ha specs hl)
  | stop id => exact linked_stop hd ha
  | delete id => exact linked_delete hd ha
  | restart id => exact linked_restart hd
  | reset id => exact linked_reset hd
  | reload id => exact linked_reload hd ha
  | scale ns base target => exact linked_scale hd ha
  | shutdown => exact linked_shutdown hd

theorem Daemon.linked_fresh (maxProcesses : ℕ) (maxErr : Option String) (dir : SpecDir) :
    (Daemon.fresh maxProcesses maxErr dir).Linked where
  nodup := List.nodup_nil
  pos := by intro c hc; cases hc
  owner := by intro c hc; cases hc
  running := by intro id p hp; cases hp
  idle := by intro id p hp; cases hp

/-- Every live child belongs to exactly one entry, which runs as that child. -/
def Daemon.ChildrenOwned (d : Daemon) : Prop :=
  ∀ c ∈ d.os.live, ∃ p, d.processes.lookup c.owner = some p ∧ p.RunsAs c.pid ∧
    ∀ id q, d.processes.lookup id = some q → q.cmd = some c.pid → id = c.owner

/-- **Children**: in every run from a new manager whose steps spare the running processes,
every live child belongs to exactly one entry, which is running as that child; no id has two
live children; and no child of an id is live after its stop or deletion. -/
theorem children_owned_of_run (maxProcesses : ℕ) (maxErr : Option String) (dir : SpecDir)
    (l : List (Host × Op))
    (hl : Along Daemon.step Op.Spares (Daemon.fresh maxProcesses maxErr dir) l) :
    let d := l.foldl Daemon.step (Daemon.fresh maxProcesses maxErr dir)
    d.ChildrenOwned ∧
      (∀ c ∈ d.os.live, ∀ c' ∈ d.os.live, c.owner = c'.owner → c = c') ∧
      (∀ h id, Op.Spares d (h, .stop id) → (d.stop h id).2 = .ok () →
        ∀ c ∈ (d.stop h id).1.os.live, c.owner ≠ id) ∧
      (∀ h id, Op.Spares d (h, .delete id) → (d.delete h id).2 = .ok () →
        ∀ c ∈ (d.delete h id).1.os.live, c.owner ≠ id) := by
  intro d
  have hd : d.Linked :=
    Along.invariant Daemon.Linked Daemon.linked_step
      (Daemon.linked_fresh maxProcesses maxErr dir) hl
  refine ⟨fun c hc => ?_, fun c hc c' hc' he => hd.eq_of_owner_eq hc hc' he,
    fun h id hs _ c hc => ?_, fun h id hs _ c hc => ?_⟩
  · obtain ⟨p, hp, hra⟩ := hd.owner c hc
    exact ⟨p, hp, hra, fun id q hq hcmd => (hd.owner_of_cmd hc hq hcmd).1.symm⟩
  · rw [Daemon.stop_os] at hc
    exact hd.not_owner_of_not_running hs hc
  · rw [Daemon.delete_os] at hc
    exact hd.not_owner_of_not_running hs hc

/-- A start and a restart. -/
def startRestart : List (Host × Op) :=
  [(userHost, .startWithSpec (plainSpec demoId)), (userHost, .restart demoId)]

theorem children_owned_of_run_restart :
    let d := startRestart.foldl Daemon.step (Daemon.fresh 0 none ∅)
    d.os.live = [⟨1, demoId, plainSpec demoId⟩] ∧ d.ChildrenOwned ∧
      (∀ c ∈ d.os.live, ∀ c' ∈ d.os.live, c.owner = c'.owner → c = c') ∧
      (∀ h id, Op.Spares d (h, .stop id) → (d.stop h id).2 = .ok () →
        ∀ c ∈ (d.stop h id).1.os.live, c.owner ≠ id) ∧
      (∀ h id, Op.Spares d (h, .delete id) → (d.delete h id).2 = .ok () →
        ∀ c ∈ (d.delete h id).1.os.live, c.owner ≠ id) :=
  ⟨by decide, children_owned_of_run 0 none ∅ startRestart ⟨trivial, trivial, trivial⟩⟩

/-- A start and a stop. -/
def startStop : List (Host × Op) :=
  [(userHost, .startWithSpec (plainSpec demoId)), (userHost, .stop demoId)]

/-- A stop that returns `Ok` leaves the child alive, and its entry without it. -/
theorem stop_orphans_child :
    let d₁ := Daemon.step (Daemon.fresh 0 none ∅) (userHost, .startWithSpec (plainSpec demoId))
    let d := startStop.foldl Daemon.step (Daemon.fresh 0 none ∅)
    (d₁.stop userHost demoId).2 = .ok () ∧ d = (d₁.stop userHost demoId).1 ∧
      (∃ c ∈ d.os.live, c.owner = demoId) ∧ ¬ d.ChildrenOwned := by
  refine ⟨by decide, rfl, ⟨⟨1, demoId, plainSpec demoId⟩, by decide, rfl⟩, fun h => ?_⟩
  obtain ⟨p, hp, hra, -⟩ := h ⟨1, demoId, plainSpec demoId⟩ (by decide)
  have hst : ((startStop.foldl Daemon.step (Daemon.fresh 0 none ∅)).processes.lookup demoId).map
      (fun p => p.info.state) = some .stopped := by decide
  rw [hp, Option.map_some, hra.1] at hst
  cases hst

end Unitpm
