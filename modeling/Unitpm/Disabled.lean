import Unitpm.ManagerLib

/-! # The `disabled` flag and the next boot

A stop by the user is remembered in two places: in the marks of the entry and in the `disabled`
flag of the spec file, which `restore` reads at the next boot.  `Synced` says that the two agree.

The flag has a third copy, in the spec the entry holds in memory.  `stop` writes the file and
leaves that copy alone, and `restart` clears the file only if that copy is set: a process that is
started enabled, stopped and restarted is running with a disabled file.  `reload` of a registered
process leaves the file that its stop wrote.  `Op.KeepsFlag` says that a step does neither, and
the runs made of such steps keep the flag in step with the entries and survive a boot
(`disabled_iff_userStopped_of_run`). -/

namespace Unitpm

open Run

/-- The process is not running and carries a mark of the user's stop. -/
def Process.UserStopped (p : Process) : Prop :=
  p.info.state ≠ .running ∧ (p.stoppedByUser = true ∨ p.noAutoRestart = true)

instance (p : Process) : Decidable p.UserStopped := inferInstanceAs (Decidable (_ ∧ _))

/-- The file agrees with the entry.  A running process carries no mark, and a file with the flag
set can be restored. -/
structure Process.InSync (p : Process) (f : Option SpecFile) : Prop where
  unmarked : p.info.state = .running → p.stoppedByUser = false ∧ p.noAutoRestart = false
  file : ∃ t, f = some (.spec t) ∧ (t.disabled = true ↔ p.UserStopped) ∧
    (p.UserStopped → cronCheck t.cron = .ok ())

/-- Files lie under the ids of their specs, and the file of every entry agrees with it. -/
structure Synced (entry : String → Option Process) (file : String → Option SpecFile) : Prop where
  keyed : ∀ id t, file id = some (.spec t) → t.id = id
  inSync : ∀ id p, entry id = some p → p.InSync (file id)

variable {entry : String → Option Process} {file : String → Option SpecFile} {h : Host}
  {d : Daemon} {id : String} {p : Process} {s : AppSpec}

/-! ### Changes of one id -/

theorem Synced.update (hs : Synced entry file) {o : Option Process} {f : Option SpecFile}
    (hf : ∀ t, f = some (.spec t) → t.id = id) (ho : ∀ p, o = some p → p.InSync f) :
    Synced (Function.update entry id o) (Function.update file id f) where
  keyed := by
    intro k t ht
    by_cases hk : k = id
    · subst hk
      rw [Function.update_self] at ht
      exact hf t ht
    · rw [Function.update_of_ne hk] at ht
      exact hs.keyed k t ht
  inSync := by
    intro k p hp
    by_cases hk : k = id
    · subst hk
      rw [Function.update_self] at hp ⊢
      exact ho p hp
    · rw [Function.update_of_ne hk] at hp ⊢
      exact hs.inSync k p hp

theorem Synced.update_entry (hs : Synced entry file) {o : Option Process}
    (ho : ∀ p, o = some p → p.InSync (file id)) : Synced (Function.update entry id o) file := by
  have := hs.update (hs.keyed id) ho
  rwa [Function.update_eq_self] at this

theorem Synced.update_file (hs : Synced entry file) (hn : entry id = none) {f : Option SpecFile}
    (hf : ∀ t, f = some (.spec t) → t.id = id) : Synced entry (Function.update file id f) := by
  have := hs.update (o := none) hf (by simp)
  rwa [← hn, Function.update_eq_self] at this

theorem Process.inSync_of_running {f : Option SpecFile} (hr : p.info.state = .running)
    (hu : p.stoppedByUser = false) (hn : p.noAutoRestart = false)
    (hf : ∃ t, f = some (.spec t) ∧ t.disabled = false) : p.InSync f where
  unmarked := fun _ => ⟨hu, hn⟩
  file := by
    obtain ⟨t, rfl, ht⟩ := hf
    have hnot : ¬ p.UserStopped := fun h => h.1 hr
    exact ⟨t, rfl, by simp [ht, hnot], fun h => absurd h hnot⟩

theorem Process.inSync_of_userStopped {f : Option SpecFile} (hp : p.UserStopped)
    (hf : ∃ t, f = some (.spec t) ∧ t.disabled = true ∧ cronCheck t.cron = .ok ()) :
    p.InSync f where
  unmarked := fun hr => absurd hr hp.1
  file := by
    obtain ⟨t, rfl, ht, hc⟩ := hf
    exact ⟨t, rfl, by simp [ht, hp], fun _ => hc⟩

theorem Process.InSync.congr {q : Process} {f : Option SpecFile} (hp : p.InSync f)
    (hr : q.info.state = .running → p.info.state = .running ∧
      q.stoppedByUser = p.stoppedByUser ∧ q.noAutoRestart = p.noAutoRestart)
    (hu : q.UserStopped ↔ p.UserStopped) : q.InSync f where
  unmarked := by
    intro hq
    obtain ⟨h1, h2, h3⟩ := hr hq
    rw [h2, h3]
    exact hp.unmarked h1
  file := by
    rw [hu]
    exact hp.file

theorem Process.InSync.stop_false {f : Option SpecFile} (hp : p.InSync f) (h : Host) (os : Os) :
    (p.stop h os false).2.InSync f := by
  obtain ⟨-, hsu, hna⟩ := Process.stop_false_fields h os p
  refine hp.congr (fun hr => ⟨Process.running_of_stop_false hr, hsu, hna⟩) ?_
  by_cases hr : p.info.state = .running
  · obtain ⟨h1, h2⟩ := hp.unmarked hr
    simp [Process.UserStopped, hsu, hna, h1, h2]
  · rw [Process.stop_false_of_not_running hr]

/-- Where a restart by the user does not part the file from the process: a process that was
stopped by the user and starts again must carry the flag in memory, and one that does not start
must carry the mark the restart leaves. -/
def Process.RestartKeepsFlag (h : Host) (p : Process) : Prop :=
  p.UserStopped →
    if p.startError h = none then p.spec.disabled = true else p.stoppedByUser = true

theorem Process.InSync.bumped {f : Option SpecFile} (hp : p.InSync f)
    (hk : p.UserStopped → p.stoppedByUser = true) : p.bumped.InSync f := by
  refine hp.congr (fun hr => ⟨hr, rfl, (hp.unmarked hr).2.symm⟩)
    ⟨fun hu => ⟨hu.1, ?_⟩, fun hu => ?_⟩
  · rcases hu.2 with h1 | h1
    · exact Or.inl h1
    · cases h1
  · exact ⟨hu.1, Or.inl (hk hu)⟩

/-! ### The operations -/

namespace Daemon

/-- Entries and files of the daemon agree. -/
def Synced (d : Daemon) : Prop := Unitpm.Synced d.processes.lookup d.specDir.file

theorem synced_put (hd : d.Synced) {os : Os} (hp : p.InSync (d.specDir.file p.info.id)) :
    (d.put os p).Synced := by
  unfold Synced
  rw [put_lookup, put_specDir]
  apply hd.update_entry
  rintro q hq
  cases hq
  exact hp

theorem synced_put_saveWarn (hw : h.Saves) (hd : d.Synced) {os : Os} (hid : s.id = p.info.id)
    (hp : p.InSync (some (.spec s))) : ((d.put os p).saveWarn h s).Synced := by
  unfold Synced
  rw [saveWarn_processes, put_lookup, saveWarn_file hw, put_specDir, hid]
  refine hd.update ?_ ?_
  · rintro t ht
    cases ht
    exact hid
  · rintro q hq
    cases hq
    exact hp

theorem synced_saveWarn (hw : h.Saves) (hd : d.Synced) (hn : d.processes.lookup s.id = none) :
    (d.saveWarn h s).Synced := by
  unfold Synced
  rw [saveWarn_processes, saveWarn_file hw]
  apply hd.update_file hn
  rintro t ht
  cases ht
  rfl

/-- The file of the spec does not carry the flag, or the start will clear it. -/
def StartsEnabled (d : Daemon) (s : AppSpec) : Prop :=
  s.disabled = true ∨ ∃ t, d.specDir.file s.id = some (.spec t) ∧ t.disabled = false

theorem synced_startWithSpec (hw : h.Saves) (hd : d.Synced)
    (hs : d.CanStart h s → d.StartsEnabled s) : (d.startWithSpec h s).1.Synced := by
  apply startWithSpec_invariant Synced hd
  intro p hp he
  obtain ⟨hnone, hnew⟩ := admission_ok hp
  obtain ⟨-, -, -, -, hn, -⟩ := Process.new_ok hnew
  have hid : p.info.id = s.id := Process.id_of_new hnew
  rw [dirAfterStart]
  split
  · apply synced_put (synced_saveWarn (s := { s with disabled := false }) hw hd hnone)
    rw [Process.started_id, hid, saveWarn_file hw, Function.update_self]
    exact Process.inSync_of_running rfl rfl hn ⟨_, rfl, rfl⟩
  · apply synced_put hd
    rw [Process.started_id, hid]
    rcases hs ⟨p, hp, he⟩ with hdis | hfile
    · contradiction
    · exact Process.inSync_of_running rfl rfl hn hfile

theorem synced_addStoppedSpec (hd : d.Synced)
    (hs : ∃ t, d.specDir.file s.id = some (.spec t) ∧ t.disabled = true ∧ t.cron = s.cron) :
    (d.addStoppedSpec h s).1.Synced := by
  apply addStoppedSpec_invariant Synced hd
  intro p hn
  obtain ⟨-, hst, -, -, -, -, hc⟩ := Process.new_ok hn
  obtain ⟨t, hf, ht, hcron⟩ := hs
  refine synced_put hd (Process.inSync_of_userStopped ⟨by simp [hst], Or.inl rfl⟩
    ⟨t, ?_, ht, by rw [hcron]; exact hc⟩)
  rw [show p.info.id = s.id from Process.id_of_new hn]
  exact hf

theorem synced_stop (hw : h.Saves) (hd : d.Synced) : (d.stop h id).1.Synced := by
  cases hp : d.processes.lookup id with
  | none => rw [stop_of_none hp]; exact hd
  | some p =>
      rw [stop_of_lookup hp]
      refine synced_put_saveWarn hw hd p.id_eq.symm
        (Process.inSync_of_userStopped ⟨?_, Or.inr rfl⟩ ⟨_, rfl, rfl, p.cron_ok⟩)
      simp [Process.userStopped, Process.markStopped]

theorem synced_remove (hd : d.Synced) : (d.remove id).Synced := by
  unfold Synced
  rw [remove_lookup]
  exact hd.update_entry (by simp)

theorem synced_delete (hw : h.Saves) (hd : d.Synced) : (d.delete h id).1.Synced := by
  cases hp : d.processes.lookup id with
  | none => rw [delete_of_none hp]; exact hd
  | some p => rw [delete_of_lookup hp]; exact synced_remove (synced_stop hw hd)

theorem synced_shutdownProcess (hd : d.Synced) : (d.shutdownProcess h id).Synced := by
  cases hp : d.processes.lookup id with
  | none => rw [shutdownProcess_of_none hp]; exact hd
  | some p =>
      rw [shutdownProcess_of_lookup hp]
      apply synced_put hd
      rw [Process.stop_false_id, Registry.info_id hp]
      exact (hd.inSync id p hp).stop_false h d.os

theorem synced_shutdown (hd : d.Synced) : (d.shutdown h).Synced :=
  Run.invariant Synced (fun _ _ => synced_shutdownProcess) _ hd

theorem synced_reset (hd : d.Synced) : (d.reset id).1.Synced := by
  refine reset_invariant Synced hd fun p hp => synced_put hd ?_
  rw [show _ = id from Registry.info_id hp]
  exact (hd.inSync id p hp).congr (fun hr => ⟨hr, rfl, rfl⟩) Iff.rfl

theorem synced_restart (hw : h.Saves) (hd : d.Synced)
    (hk : ∀ p, d.processes.lookup id = some p → p.RestartKeepsFlag h) :
    (d.restart h id).1.Synced := by
  -- a process the user stopped is not running, so its start is tried as it is
  have hsame : ∀ (p q : Process) (os : Os), p.bumped.stop h d.os false = (os, q) → p.UserStopped →
      q.startError h = p.startError h := by
    intro p q os hq hu
    rw [(Process.bumped_stop_fields hq).2.2.2 hu.1]
    exact Process.startError_congr hu.1 hu.1 rfl
  refine restart_invariant Synced hd (fun p q os hp hq he => ?_) fun p q os hp hq he => ?_
  · have hmark : p.UserStopped → p.stoppedByUser = true := by
      intro hu
      have := hk p hp hu
      rwa [← hsame p q os hq hu, if_neg he] at this
    have hid : q.info.id = id := (Process.bumped_stop_fields hq).2.1.trans (Registry.info_id hp)
    have hsync := ((hd.inSync id p hp).bumped hmark).stop_false h d.os
    rw [hq] at hsync
    exact synced_put hd (by rw [hid]; exact hsync)
  · obtain ⟨hspec, hid, hna, -⟩ := Process.bumped_stop_fields hq
    rw [Registry.info_id hp] at hid
    refine ⟨fun _ => ?_, fun hdis => ?_⟩
    · exact synced_put_saveWarn hw hd q.id_eq.symm
        (Process.inSync_of_running rfl rfl hna ⟨_, rfl, rfl⟩)
    · obtain ⟨t, ht, hiff, -⟩ := (hd.inSync id p hp).file
      have hnot : ¬ p.UserStopped := by
        intro hu
        have := hk p hp hu
        rw [← hsame p q os hq hu, if_pos he, ← hspec, hdis] at this
        cases this
      refine synced_put hd (Process.inSync_of_running rfl rfl hna ⟨t, ?_, ?_⟩)
      · rw [Process.started_id, hid]
        exact ht
      · simpa [hnot] using hiff

/-- A registered process is reloaded only where the start fails. -/
theorem synced_reload (hw : h.Saves) (hd : d.Synced)
    (hk : ∀ t, d.specDir.loadSpec h id = .ok t → (d.processes.lookup id).isSome = true →
      ¬ (d.remove id).CanStart h (reloadedSpec t)) : (d.reload h id).1.Synced := by
  cases hl : d.specDir.loadSpec h id with
  | error e => rw [reload_of_error hl]; exact hd
  | ok s =>
      obtain ⟨t, ht, rfl⟩ := SpecDir.readSpec_ok hl
      have hid : (reloadedSpec t.withNamespace).id = id := hd.keyed id t ht
      rw [(reload_of_load hl).1]
      refine synced_startWithSpec hw ?_ fun hc => ?_
      · unfold Synced
        rw [dropForReload_lookup, dropForReload_file hw hid]
        refine hd.update ?_ (by simp)
        rintro u hu
        cases hu
        cases hp : d.processes.lookup id with
        | none => exact hid
        | some p => exact Registry.spec_id hp
      · cases hp : d.processes.lookup id with
        | none =>
            refine Or.inr ⟨reloadedSpec t.withNamespace, ?_, rfl⟩
            rw [dropForReload_file hw hid, hid, Function.update_self, hp]
            rfl
        | some p =>
            exact absurd (canStart_dropForReload.mp hc) (hk _ hl (by rw [hp]; rfl))

theorem synced_deleteSpec (hd : d.Synced) (hn : d.processes.lookup id = none) :
    (d.deleteSpec h id).Synced := by
  cases hr : h.specRemoveErr id with
  | some e =>
      have : d.deleteSpec h id = d := by simp only [deleteSpec, SpecDir.deleteSpec, hr]
      rw [this]
      exact hd
  | none =>
      unfold Synced deleteSpec
      rw [SpecDir.file_deleteSpec hr]
      exact hd.update_file hn (by simp)

theorem synced_createInstance (hw : h.Saves) (hd : d.Synced)
    (hn : d.processes.lookup s.id = none) : (d.createInstance h s).1.Synced := by
  have hs := synced_saveWarn hw hd hn
  obtain ⟨h1, h2⟩ := createInstance_of_saved (d := d) (s := s) hw
  by_cases hc : d.CanStart h s
  · rw [h1 hc]
    apply synced_startWithSpec hw hs
    intro _
    cases hdis : s.disabled with
    | true => exact Or.inl hdis
    | false => exact Or.inr ⟨s, by rw [saveWarn_file hw, Function.update_self], hdis⟩
  · rw [h2 hc]
    exact synced_deleteSpec hs hn

theorem synced_scale {ns base : String} {target : ℕ} (hw : h.Saves) (hd : d.Synced)
    (hnew : FreshIds h d) : (d.scale h ns base target).1.Synced := by
  rcases scale_cases h d ns base target with
    he | ⟨-, -, he⟩ | ⟨template, -, -, ht, he⟩
  · rw [he]
    exact hd
  · rw [he]
    exact deleteAll_invariant Synced (fun _ _ => True) (fun d id hd _ => synced_delete hw hd)
      (fun _ _ _ _ => trivial) hd fun _ _ => trivial
  · rw [he]
    exact createInstances_fresh Synced (fun d s hd hn => synced_createInstance hw hd hn) hd hnew
      (by rw [length_newNames]; omega)

/-! ### Restoring -/

/-- The spec comes from the file of its id. -/
def Stored (file : String → Option SpecFile) (s : AppSpec) : Prop :=
  ∃ t, file s.id = some (.spec t) ∧ s = t.withNamespace

theorem stored_of_loadAll {specs : List AppSpec} (hd : d.Synced)
    (hl : d.specDir.loadAll h = .ok specs) : ∀ s ∈ specs, Stored d.specDir.file s := by
  intro s hs
  obtain ⟨id, hid⟩ := (SpecDir.mem_loadAll hl).mp hs
  obtain ⟨t, ht, rfl⟩ := SpecDir.readSpec_ok hid
  exact ⟨t, by rw [AppSpec.withNamespace_id, hd.keyed id t ht]; exact ht, rfl⟩

theorem restoreSpec_specDir : (d.restoreSpec h s).specDir = d.specDir := by
  refine restoreSpec_invariant (fun d' => d'.specDir = d.specDir) (fun _ => ?_) fun hdis => ?_
  · exact addStoppedSpec_invariant (fun d' => d'.specDir = d.specDir) rfl fun _ _ => rfl
  · apply startWithSpec_invariant (fun d' => d'.specDir = d.specDir) rfl
    intro p _ _
    rw [put_specDir, dirAfterStart, hdis]
    rfl

theorem synced_restoreSpec (hw : h.Saves) (hd : d.Synced) (hs : Stored d.specDir.file s) :
    (d.restoreSpec h s).Synced := by
  obtain ⟨t, ht, rfl⟩ := hs
  refine restoreSpec_invariant Synced (fun hdis => ?_) fun hdis => ?_
  · exact synced_addStoppedSpec hd ⟨t, ht, hdis, rfl⟩
  · exact synced_startWithSpec hw hd fun _ => Or.inr ⟨t, ht, hdis⟩

theorem synced_restore (hw : h.Saves) (hd : d.Synced) : (d.restore h).1.Synced := by
  unfold restore
  cases hl : d.specDir.loadAll h with
  | error e => exact hd
  | ok specs =>
      have hall : Along (restoreSpec h) (fun _ s => Stored d.specDir.file s) d specs :=
        along_of_forall _ fun s hs _ => stored_of_loadAll hd hl s hs
      have hinv := Along.invariant (fun d' => d'.Synced ∧ d'.specDir = d.specDir)
        (fun d' s hd' hs => ⟨synced_restoreSpec hw hd'.1 (hd'.2.symm ▸ hs),
          restoreSpec_specDir.trans hd'.2⟩) ⟨hd, rfl⟩ hall
      exact hinv.1

/-- A manager with nothing registered can start the spec. -/
def Boots (h : Host) (s : AppSpec) : Prop := (fresh 0 none ∅).CanStart h s

/-- No limit is set, as `Manager::new` leaves it. -/
def Unlimited (d : Daemon) : Prop := d.maxProcesses = 0 ∧ d.maxProcessesErr = none

theorem canStart_iff_boots (hu : d.Unlimited) (hn : d.processes.lookup s.id = none) :
    d.CanStart h s ↔ Boots h s := by
  unfold Boots CanStart admission
  rw [hu.1, hu.2, hn]
  rfl

theorem unlimited_restoreSpec (hu : d.Unlimited) : (d.restoreSpec h s).Unlimited :=
  restoreSpec_invariant Unlimited
    (fun _ => addStoppedSpec_invariant Unlimited hu fun _ _ => hu)
    fun _ => startWithSpec_invariant Unlimited hu fun _ _ _ => hu

theorem restoreSpec_lookup_of_ne {k : String} (hk : k ≠ s.id) :
    (d.restoreSpec h s).processes.lookup k = d.processes.lookup k := by
  refine restoreSpec_invariant (fun d' => d'.processes.lookup k = d.processes.lookup k)
    (fun _ => ?_) fun _ => startWithSpec_lookup_of_ne hk
  refine addStoppedSpec_invariant (fun d' => d'.processes.lookup k = d.processes.lookup k) rfl
    fun p hn => ?_
  have hid : p.info.id = s.id := Process.id_of_new hn
  rw [put_lookup, hid, Function.update_of_ne hk]

theorem foldl_restoreSpec_lookup_of_ne {specs : List AppSpec} {k : String}
    (hk : ∀ s ∈ specs, k ≠ s.id) (d : Daemon) :
    (specs.foldl (restoreSpec h) d).processes.lookup k = d.processes.lookup k :=
  Along.invariant (fun d' : Daemon => d'.processes.lookup k = d.processes.lookup k)
    (fun _ _ hd hs => (restoreSpec_lookup_of_ne hs).trans hd) rfl
    (along_of_forall (fun _ s => k ≠ s.id) fun s hs _ => hk s hs)

/-- What a boot makes of a spec: it is running if it was enabled and can be started, and stopped
by the user if it was disabled. -/
def RestoredAs (h : Host) (s : AppSpec) (o : Option Process) : Prop :=
  (s.disabled = false → Boots h s → ∃ q, o = some q ∧ q.info.state = .running) ∧
    (s.disabled = true → h.uuidOk s.id = true → cronCheck s.cron = .ok () →
      ∃ q, o = some q ∧ q.UserStopped)

theorem restoredAs_restoreSpec (hu : d.Unlimited) (hn : d.processes.lookup s.id = none) :
    RestoredAs h s ((d.restoreSpec h s).processes.lookup s.id) := by
  constructor
  · intro hdis hb
    obtain ⟨p, hp, he⟩ := (canStart_iff_boots hu hn).mpr hb
    have hid : p.info.id = s.id := Process.id_of_new (admission_ok hp).2
    refine ⟨p.started h (h.newPid d.os.pids), ?_, rfl⟩
    rw [restoreSpec, hdis, if_neg (by simp), startWithSpec_of_canStart hp he, put_lookup,
      Process.started_id, hid, Function.update_self]
  · intro hdis hid hc
    obtain ⟨p, hp⟩ : ∃ p, Process.new h s = .ok p := by
      unfold Process.new
      rw [if_neg (by simp [hid])]
      split
      · rename_i he
        rw [hc] at he
        cases he
      · exact ⟨_, rfl⟩
    obtain ⟨-, hst, -⟩ := Process.new_ok hp
    refine ⟨{ p with noAutoRestart := true, stoppedByUser := true }, ?_, by simp [hst], Or.inl rfl⟩
    rw [restoreSpec, if_pos hdis, addStoppedSpec, hp]
    simp only
    rw [put_lookup, show p.info.id = s.id from Process.id_of_new hp, Function.update_self]

/-- A boot handles every spec as if it were the only one. -/
theorem restoredAs_foldl {specs : List AppSpec} (hids : (specs.map AppSpec.id).Nodup)
    (hu : d.Unlimited) (hn : ∀ s ∈ specs, d.processes.lookup s.id = none) :
    ∀ s ∈ specs, RestoredAs h s ((specs.foldl (restoreSpec h) d).processes.lookup s.id) := by
  induction specs generalizing d with
  | nil => simp
  | cons t specs ih =>
      rw [List.map_cons, List.nodup_cons] at hids
      have hne : ∀ s ∈ specs, s.id ≠ t.id :=
        fun s hs he => hids.1 (List.mem_map.mpr ⟨s, hs, he⟩)
      intro s hs
      rcases List.mem_cons.mp hs with rfl | hs
      · rw [List.foldl_cons, foldl_restoreSpec_lookup_of_ne fun u hu' => (hne u hu').symm]
        exact restoredAs_restoreSpec hu (hn s (by simp))
      · refine ih hids.2 (unlimited_restoreSpec hu) (fun u hu' => ?_) s hs
        rw [restoreSpec_lookup_of_ne (hne u hu')]
        exact hn u (by simp [hu'])

theorem shutdown_specDir : (d.shutdown h).specDir = d.specDir := by
  refine Run.invariant (fun d' : Daemon => d'.specDir = d.specDir) (fun d' id hd' => ?_) _ rfl
  cases hp : d'.processes.lookup id with
  | none => rw [shutdownProcess_of_none hp]; exact hd'
  | some p => rw [shutdownProcess_of_lookup hp, put_specDir]; exact hd'

/-- A shutdown, and the `restore` of a new manager over what is on disk. -/
def reboot (h₁ h₂ : Host) (d : Daemon) : Daemon :=
  ((fresh 0 none (d.shutdown h₁).specDir).restore h₂).1

/-- The file of every entry carries the flag exactly when the user has stopped the process. -/
def FlagsAgree (d : Daemon) : Prop :=
  ∀ id p, d.processes.lookup id = some p →
    ∃ t, d.specDir.lookup id = some (.spec t) ∧ (t.disabled = true ↔ p.UserStopped)

/-- What is running before the reboot runs after it, if the machine can start what is on disk, and
what the user has stopped is stopped. -/
def SurvivesBoot (h₁ h₂ : Host) (d : Daemon) : Prop :=
  ∀ id p, d.processes.lookup id = some p →
    (p.info.state = .running →
      (∀ t, d.specDir.lookup id = some (.spec t) → Boots h₂ t.withNamespace) →
      ∃ q, (d.reboot h₁ h₂).processes.lookup id = some q ∧ q.info.state = .running) ∧
    (p.UserStopped → h₂.uuidOk id = true →
      ∃ q, (d.reboot h₁ h₂).processes.lookup id = some q ∧ q.UserStopped)

theorem Synced.flagsAgree (hd : d.Synced) : d.FlagsAgree := by
  intro id p hp
  obtain ⟨t, ht, hiff, -⟩ := (hd.inSync id p hp).file
  exact ⟨t, ht, hiff⟩

theorem Synced.survivesBoot {h₁ h₂ : Host} (hd : d.Synced) (hr : h₂.Reads) :
    d.SurvivesBoot h₁ h₂ := by
  intro id p hp
  obtain ⟨t, ht, hiff, hcron⟩ := (hd.inSync id p hp).file
  have hid : t.id = id := hd.keyed id t ht
  obtain ⟨specs, hl⟩ : ∃ specs, d.specDir.loadAll h₂ = .ok specs := by
    unfold SpecDir.loadAll
    rw [hr.1]
    exact ⟨_, rfl⟩
  have hmem : t.withNamespace ∈ specs :=
    (SpecDir.mem_loadAll hl).mpr ⟨id, SpecDir.readSpec_of_file ht (hr.2 id)⟩
  have hreboot : (d.reboot h₁ h₂) = specs.foldl (restoreSpec h₂) (fresh 0 none d.specDir) := by
    unfold reboot restore
    rw [shutdown_specDir, show (fresh 0 none d.specDir).specDir = d.specDir from rfl, hl]
  have hres := restoredAs_foldl (h := h₂) (d := fresh 0 none d.specDir)
    (SpecDir.loadAll_ids_nodup hd.keyed hl) ⟨rfl, rfl⟩ (fun s _ => Registry.lookup_empty s.id)
    t.withNamespace hmem
  rw [← hreboot, AppSpec.withNamespace_id, hid] at hres
  refine ⟨fun hrun hb => hres.1 ?_ (hb t ht), fun hu huuid => hres.2 (hiff.mpr hu) ?_ (hcron hu)⟩
  · have hnot : ¬ t.disabled = true := fun hdis => (hiff.mp hdis).1 hrun
    simpa using hnot
  · rw [AppSpec.withNamespace_id, hid]
    exact huuid

end Daemon

/-! ### Runs -/

/-- The steps that keep the flag in step with the entries. -/
def Op.KeepsFlag (d : Daemon) (a : Host × Op) : Prop :=
  a.1.Saves ∧
    match a.2 with
    | .startWithSpec s => d.CanStart a.1 s → d.StartsEnabled s
    | .addStoppedSpec s =>
        ∃ t, d.specDir.file s.id = some (.spec t) ∧ t.disabled = true ∧ t.cron = s.cron
    | .restart id => ∀ p, d.processes.lookup id = some p → p.RestartKeepsFlag a.1
    | .reload id => ∀ t, d.specDir.loadSpec a.1 id = .ok t →
        (d.processes.lookup id).isSome = true →
        ¬ (d.remove id).CanStart a.1 (Daemon.reloadedSpec t)
    | .scale _ _ _ => Daemon.FreshIds a.1 d
    | _ => True

theorem Daemon.synced_step (d : Daemon) (a : Host × Op) (hd : d.Synced) (ha : Op.KeepsFlag d a) :
    (d.step a).Synced := by
  obtain ⟨h, op⟩ := a
  obtain ⟨hw, ha⟩ := ha
  cases op with
  | startWithSpec s => exact synced_startWithSpec hw hd ha
  | addStoppedSpec s => exact synced_addStoppedSpec hd ha
  | restore => exact synced_restore hw hd
  | stop id => exact synced_stop hw hd
  | delete id => exact synced_delete hw hd
  | restart id => exact synced_restart hw hd ha
  | reset id => exact synced_reset hd
  | reload id => exact synced_reload hw hd ha
  | scale ns base target => exact synced_scale hw hd ha
  | shutdown => exact synced_shutdown hd

/-- **The flag and the next boot**: in every run from a new manager whose steps keep the flag, the
file of a registered process carries the flag exactly when the user has stopped the process; and
after a shutdown and a restore, what was running is running and what the user stopped is
stopped. -/
theorem disabled_iff_userStopped_of_run (maxProcesses : ℕ) (maxErr : Option String) (dir : SpecDir)
    (hk : dir.Keyed) (l : List (Host × Op))
    (hl : Along Daemon.step Op.KeepsFlag (Daemon.fresh maxProcesses maxErr dir) l) (h₁ h₂ : Host)
    (hr : h₂.Reads) :
    let d := l.foldl Daemon.step (Daemon.fresh maxProcesses maxErr dir)
    d.FlagsAgree ∧ d.SurvivesBoot h₁ h₂ := by
  intro d
  have hfresh : (Daemon.fresh maxProcesses maxErr dir).Synced :=
    ⟨hk, fun id p hp => by cases hp⟩
  have hd : d.Synced := Along.invariant Daemon.Synced Daemon.synced_step hfresh hl
  exact ⟨hd.flagsAgree, hd.survivesBoot hr⟩

/-- The spec directory after the CLI has saved the plain spec. -/
def plainDir : SpecDir := (SpecDir.saveSpec userHost ∅ demoId (plainSpec demoId)).1

theorem keyed_plainDir : plainDir.Keyed := by
  intro id t ht
  rw [plainDir, SpecDir.file_saveSpec (fun _ _ => rfl)] at ht
  by_cases hid : id = demoId
  · rw [hid, Function.update_self] at ht
    cases ht
    exact hid.symm
  · rw [Function.update_of_ne hid] at ht
    cases ht

/-- A start, and a stop by the user. -/
def stoppedRun : List (Host × Op) :=
  [(userHost, .startWithSpec (plainSpec demoId)), (userHost, .stop demoId)]

theorem disabled_iff_userStopped_of_run_stop :
    let d := stoppedRun.foldl Daemon.step (Daemon.fresh 0 none plainDir)
    (d.processes.lookup demoId).isSome = true ∧ d.FlagsAgree ∧
      d.SurvivesBoot userHost userHost := by
  have hsaves : userHost.Saves := fun _ _ => rfl
  refine ⟨by decide, disabled_iff_userStopped_of_run 0 none plainDir keyed_plainDir stoppedRun
    ⟨⟨hsaves, fun _ => Or.inr ⟨plainSpec demoId, rfl, rfl⟩⟩, ⟨hsaves, trivial⟩, trivial⟩
    userHost userHost ⟨rfl, fun _ => rfl⟩⟩

/-- The same, and a restart. -/
def restartedRun : List (Host × Op) := stoppedRun ++ [(userHost, .restart demoId)]

/-- The restarted process is running, its file is still disabled, and the next boot does not start
it. -/
theorem restart_leaves_disabled :
    let d := restartedRun.foldl Daemon.step (Daemon.fresh 0 none plainDir)
    userHost.Saves ∧ (d.processes.lookup demoId).map (fun p => p.info.state) = some .running ∧
      d.specDir.lookup demoId = some (.spec { plainSpec demoId with disabled := true }) ∧
      ¬ d.FlagsAgree ∧
      ((d.reboot userHost userHost).processes.lookup demoId).map (fun p => p.info.state) =
        some .stopped := by
  have hstate : ((restartedRun.foldl Daemon.step (Daemon.fresh 0 none plainDir)).processes.lookup
      demoId).map (fun p => p.info.state) = some .running := by decide
  have hfile : (restartedRun.foldl Daemon.step (Daemon.fresh 0 none plainDir)).specDir.lookup
      demoId = some (.spec { plainSpec demoId with disabled := true }) := by decide
  refine ⟨fun _ _ => rfl, hstate, hfile, fun hagree => ?_, by decide⟩
  obtain ⟨p, hp, hrun⟩ := Option.map_eq_some_iff.mp hstate
  obtain ⟨t, ht, hiff⟩ := hagree demoId p hp
  rw [hfile] at ht
  obtain rfl := SpecFile.spec.inj (Option.some.inj ht)
  exact (hiff.mp rfl).1 hrun

end Unitpm
