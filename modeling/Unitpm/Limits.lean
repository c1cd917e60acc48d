import Unitpm.ManagerLib

/-! # The limit on the number of processes

`start_with_spec` refuses to start a process when `max_processes` are registered.  Every entry comes
into the registry through it, but for the disabled specs that `restore` finds: these are inserted by
`add_stopped_spec`, which has no limit.

So a run stays within the limit throughout if and only if every disabled spec that is inserted has
its entry already or finds a place (`withinLimit_iff_along`). -/

namespace Unitpm

open Run

/-! ### The size of a registry -/

namespace Registry

variable {r : Registry} {p : Process} {id : String}

theorem size_insert_of_some (hp : (r.lookup p.info.id).isSome = true) :
    (r.insert p).size = r.size := by
  have hmem : p.info.id ∈ r.entries.keys := AList.mem_keys.mp (AList.lookup_isSome.mp hp)
  rw [size, insert, AList.keys_insert, List.length_cons, List.length_erase_of_mem hmem]
  exact Nat.sub_add_cancel (List.length_pos_of_mem hmem)

theorem size_insert_of_none (hp : r.lookup p.info.id = none) : (r.insert p).size = r.size + 1 := by
  have hmem : p.info.id ∉ r.entries.keys := by
    intro hk
    have := AList.lookup_isSome.mpr (AList.mem_keys.mpr hk)
    rw [show r.entries.lookup p.info.id = none from hp] at this
    cases this
  rw [size, insert, AList.keys_insert, List.length_cons, List.erase_of_not_mem hmem, size]

theorem size_erase_le : (r.erase id).size ≤ r.size := by
  rw [size, erase, AList.keys_erase]
  exact List.length_erase_le

theorem size_le_size_insert : r.size ≤ (r.insert p).size := by
  cases hp : r.lookup p.info.id with
  | none =>
      rw [size_insert_of_none hp]
      omega
  | some q => rw [size_insert_of_some (by rw [hp]; rfl)]

end Registry

namespace Daemon

variable {h : Host} {d : Daemon} {s : AppSpec} {id : String} {m : ℕ}

/-- A registry within the limit. -/
structure WithinLimit (m : ℕ) (d : Daemon) : Prop where
  limit : d.maxProcesses = m
  size : d.processes.size ≤ m

theorem WithinLimit.dir (hd : d.WithinLimit m) (dir : SpecDir) :
    WithinLimit m { d with specDir := dir } := ⟨hd.limit, hd.size⟩

theorem WithinLimit.put (hd : d.WithinLimit m) {os : Os} {p : Process}
    (hp : (d.processes.lookup p.info.id).isSome = true) : (d.put os p).WithinLimit m where
  limit := hd.limit
  size := by
    show (d.processes.insert p).size ≤ m
    rw [Registry.size_insert_of_some hp]
    exact hd.size

theorem WithinLimit.remove (hd : d.WithinLimit m) (id : String) : (d.remove id).WithinLimit m where
  limit := hd.limit
  size := Registry.size_erase_le.trans hd.size

theorem admission_size {p : Process} (hm : 0 < m) (hd : d.maxProcesses = m)
    (hp : d.admission h s = .ok p) : d.processes.size < m := by
  unfold admission at hp
  split at hp
  · cases hp
  · split at hp
    · cases hp
    · rename_i hn
      omega

theorem WithinLimit.startWithSpec (hm : 0 < m) (hd : d.WithinLimit m) :
    (d.startWithSpec h s).1.WithinLimit m := by
  apply startWithSpec_invariant (WithinLimit m) hd
  intro p hp _
  have hlt := admission_size hm hd.limit hp
  obtain ⟨hnone, hnew⟩ := admission_ok hp
  refine ⟨hd.limit, ?_⟩
  show (d.processes.insert _).size ≤ m
  rw [Registry.size_insert_of_none]
  · exact hlt
  · rw [Process.started_id, Process.id_of_new hnew]
    exact hnone

theorem WithinLimit.stop (hd : d.WithinLimit m) : (d.stop h id).1.WithinLimit m := by
  cases hp : d.processes.lookup id with
  | none => rw [stop_of_none hp]; exact hd
  | some p =>
      rw [stop_of_lookup hp]
      refine WithinLimit.dir (hd.put ?_) _
      rw [Process.userStopped_id, Registry.info_id hp, hp]
      rfl

theorem WithinLimit.delete (hd : d.WithinLimit m) : (d.delete h id).1.WithinLimit m := by
  cases hp : d.processes.lookup id with
  | none => rw [delete_of_none hp]; exact hd
  | some p => rw [delete_of_lookup hp]; exact hd.stop.remove id

theorem WithinLimit.restart (hd : d.WithinLimit m) : (d.restart h id).1.WithinLimit m := by
  have hmem : ∀ {p q : Process} {os : Os}, d.processes.lookup id = some p →
      p.bumped.stop h d.os false = (os, q) → (d.processes.lookup q.info.id).isSome = true := by
    intro p q os hp hq
    rw [(Process.bumped_stop_fields hq).2.1, Registry.info_id hp, hp]
    rfl
  apply restart_invariant (WithinLimit m) hd
  · intro p q os hp hq _
    exact hd.put (hmem hp hq)
  · intro p q os hp hq _
    have hq' : (d.processes.lookup q.info.id).isSome = true := hmem hp hq
    refine ⟨fun _ => WithinLimit.dir (hd.put ?_) _, fun _ => hd.put ?_⟩
    · exact hq'
    · exact hq'

theorem WithinLimit.reset (hd : d.WithinLimit m) : (d.reset id).1.WithinLimit m := by
  apply reset_invariant (WithinLimit m) hd
  intro p hp
  apply hd.put
  show (d.processes.lookup p.info.id).isSome = true
  rw [Registry.info_id hp, hp]
  rfl

theorem WithinLimit.shutdown (hd : d.WithinLimit m) : (d.shutdown h).WithinLimit m := by
  refine Run.invariant (WithinLimit m) (fun d id hd => ?_) _ hd
  cases hp : d.processes.lookup id with
  | none => rw [shutdownProcess_of_none hp]; exact hd
  | some p =>
      rw [shutdownProcess_of_lookup hp]
      apply hd.put
      rw [Process.stop_false_id, Registry.info_id hp, hp]
      rfl

theorem WithinLimit.reload (hm : 0 < m) (hd : d.WithinLimit m) :
    (d.reload h id).1.WithinLimit m := by
  cases hl : d.specDir.loadSpec h id with
  | error e => rw [reload_of_error hl]; exact hd
  | ok t =>
      rw [(reload_of_load hl).1]
      exact WithinLimit.startWithSpec hm ((hd.dir _).stop.remove id)

theorem WithinLimit.scale (hm : 0 < m) {ns base : String} {target : ℕ} (hd : d.WithinLimit m) :
    (d.scale h ns base target).1.WithinLimit m := by
  rcases scale_cases h d ns base target with he | ⟨-, -, he⟩ | ⟨template, -, -, -, he⟩
  · rw [he]
    exact hd
  · rw [he]
    exact deleteAll_invariant (WithinLimit m) (fun _ _ => True) (fun d id hd _ => hd.delete)
      (fun _ _ _ _ => trivial) hd fun _ _ => trivial
  · rw [he]
    refine createInstances_invariant (WithinLimit m) (fun _ _ => True) ?_
      (fun _ _ _ _ _ _ _ _ => trivial) hd fun _ _ => trivial
    intro d i _ name _ hd _
    exact createInstance_invariant (WithinLimit m) (fun d dir hd => hd.dir dir)
      (fun d hd => hd.startWithSpec hm) hd

/-! ### Disabled specs -/

/-- The disabled spec has its entry already, or finds a place, or is not accepted at all. -/
def Fits (h : Host) (d : Daemon) (s : AppSpec) : Prop :=
  (Process.new h s).isOk = true →
    (d.processes.lookup s.id).isSome = true ∨ d.processes.size < d.maxProcesses

instance (h : Host) (d : Daemon) (s : AppSpec) : Decidable (Fits h d s) :=
  inferInstanceAs (Decidable (_ → _))

theorem size_insert_le_iff (hd : d.WithinLimit m) {p : Process} :
    (d.processes.insert p).size ≤ m ↔
      (d.processes.lookup p.info.id).isSome = true ∨ d.processes.size < d.maxProcesses := by
  rw [hd.limit]
  cases hp : d.processes.lookup p.info.id with
  | none =>
      rw [Registry.size_insert_of_none hp]
      exact ⟨.inr, fun hf => hf.resolve_left Bool.false_ne_true⟩
  | some q =>
      rw [Registry.size_insert_of_some (by rw [hp]; rfl)]
      exact ⟨fun _ => .inl rfl, fun _ => hd.size⟩

theorem addStoppedSpec_withinLimit (hd : d.WithinLimit m) :
    (d.addStoppedSpec h s).1.WithinLimit m ↔ d.Fits h s := by
  unfold addStoppedSpec Fits
  cases hn : Process.new h s with
  | error e =>
      refine ⟨fun _ hok => ?_, fun _ => hd⟩
      cases hok
  | ok p =>
      have hfits := size_insert_le_iff hd
        (p := { p with noAutoRestart := true, stoppedByUser := true })
      rw [← Process.id_of_new hn]
      exact ⟨fun hw _ => hfits.mp hw.size, fun hf => ⟨hd.limit, hfits.mpr (hf rfl)⟩⟩

theorem restoreSpec_withinLimit (hm : 0 < m) (hd : d.WithinLimit m) :
    (d.restoreSpec h s).WithinLimit m ↔ (s.disabled = true → d.Fits h s) := by
  unfold restoreSpec
  cases hdis : s.disabled with
  | true =>
      rw [if_pos rfl, addStoppedSpec_withinLimit hd]
      simp
  | false =>
      rw [if_neg Bool.false_ne_true]
      refine ⟨fun _ hf => ?_, fun _ => hd.startWithSpec hm⟩
      cases hf

theorem size_le_restoreSpec : d.processes.size ≤ (d.restoreSpec h s).processes.size := by
  apply restoreSpec_invariant fun d' => d.processes.size ≤ d'.processes.size
  · intro _
    exact addStoppedSpec_invariant (fun d' => d.processes.size ≤ d'.processes.size) le_rfl
      fun p _ => Registry.size_le_size_insert
  · intro _
    exact startWithSpec_invariant (fun d' => d.processes.size ≤ d'.processes.size) le_rfl
      fun p _ _ => Registry.size_le_size_insert

theorem restoreSpec_maxProcesses : (d.restoreSpec h s).maxProcesses = d.maxProcesses := by
  apply restoreSpec_invariant fun d' => d'.maxProcesses = d.maxProcesses
  · intro _
    exact addStoppedSpec_invariant (fun d' => d'.maxProcesses = d.maxProcesses) rfl fun _ _ => rfl
  · intro _
    exact startWithSpec_invariant (fun d' => d'.maxProcesses = d.maxProcesses) rfl
      fun _ _ _ => rfl

/-- A restore stays within the limit exactly if every disabled spec fits when it comes to it. -/
theorem restore_withinLimit (hm : 0 < m) (hd : d.WithinLimit m) (specs : List AppSpec) :
    (specs.foldl (restoreSpec h) d).WithinLimit m ↔
      Along (restoreSpec h) (fun d s => s.disabled = true → d.Fits h s) d specs := by
  rw [← forall_prefix_iff_along (fun d : Daemon => d.maxProcesses = m) (WithinLimit m)
    (fun d s hd => restoreSpec_maxProcesses.trans hd)
    (fun d s _ hd => restoreSpec_withinLimit hm hd) hd.limit hd specs]
  constructor
  · rintro hend k ⟨t, rfl⟩
    -- the registry at the end is no smaller than anywhere before
    rw [List.foldl_append] at hend
    refine ⟨Run.invariant (fun d : Daemon => d.maxProcesses = m)
      (fun d s hd => restoreSpec_maxProcesses.trans hd) k hd.limit, le_trans ?_ hend.size⟩
    exact Run.invariant
      (fun d' : Daemon => (k.foldl (restoreSpec h) d).processes.size ≤ d'.processes.size)
      (fun d' s hle => hle.trans size_le_restoreSpec) t le_rfl
  · intro hall
    exact hall specs (List.prefix_refl _)

/-! ### Runs -/

/-- An operation of the manager, or anything at all done to the files. -/
inductive Turn where
  | op (h : Host) (o : Op)
  | edit (dir : SpecDir)

def turn (d : Daemon) : Turn → Daemon
  | .op h o => d.step (h, o)
  | .edit dir => { d with specDir := dir }

/-- Every disabled spec that is inserted fits, where it is inserted. -/
def RespectsLimit (d : Daemon) : Turn → Prop
  | .op h (.addStoppedSpec s) => d.Fits h s
  | .op h .restore => ∀ specs, d.specDir.loadAll h = .ok specs →
      Along (restoreSpec h) (fun d s => s.disabled = true → d.Fits h s) d specs
  | _ => True

/-- One turn keeps the limit exactly if the disabled specs it inserts fit. -/
theorem turn_withinLimit (hm : 0 < m) (t : Turn) (hd : d.WithinLimit m) :
    (d.turn t).WithinLimit m ↔ d.RespectsLimit t := by
  cases t with
  | edit dir => exact ⟨fun _ => trivial, fun _ => hd.dir dir⟩
  | op h o =>
      cases o with
      | addStoppedSpec s => exact addStoppedSpec_withinLimit hd
      | restore =>
          show (d.restore h).1.WithinLimit m ↔ ∀ specs, _
          unfold restore
          cases hl : d.specDir.loadAll h with
          | error e =>
              refine ⟨fun _ specs hs => ?_, fun _ => hd⟩
              cases hs
          | ok specs =>
              rw [restore_withinLimit hm hd specs]
              refine ⟨fun hall specs' he => ?_, fun hall => hall specs rfl⟩
              obtain rfl := Except.ok.inj he
              exact hall
      | startWithSpec s => exact ⟨fun _ => trivial, fun _ => hd.startWithSpec hm⟩
      | stop id => exact ⟨fun _ => trivial, fun _ => hd.stop⟩
      | delete id => exact ⟨fun _ => trivial, fun _ => hd.delete⟩
      | restart id => exact ⟨fun _ => trivial, fun _ => hd.restart⟩
      | reset id => exact ⟨fun _ => trivial, fun _ => hd.reset⟩
      | reload id => exact ⟨fun _ => trivial, fun _ => hd.reload hm⟩
      | scale ns base target => exact ⟨fun _ => trivial, fun _ => hd.scale hm⟩
      | shutdown => exact ⟨fun _ => trivial, fun _ => hd.shutdown⟩

theorem startWithSpec_maxProcesses {m : ℕ} (hd : d.maxProcesses = m) (s : AppSpec) :
    (d.startWithSpec h s).1.maxProcesses = m :=
  startWithSpec_invariant (fun e => e.maxProcesses = m) hd fun _ _ _ => hd

theorem stop_maxProcesses : (d.stop h id).1.maxProcesses = d.maxProcesses := by
  cases hp : d.processes.lookup id with
  | none => rw [stop_of_none hp]
  | some p => rw [stop_of_lookup hp]; rfl

theorem delete_maxProcesses : (d.delete h id).1.maxProcesses = d.maxProcesses := by
  cases hp : d.processes.lookup id with
  | none => rw [delete_of_none hp]
  | some p => rw [delete_of_lookup hp]; exact stop_maxProcesses

theorem scale_maxProcesses {ns base : String} {target : ℕ} :
    (d.scale h ns base target).1.maxProcesses = d.maxProcesses := by
  rcases scale_cases h d ns base target with he | ⟨-, -, he⟩ | ⟨template, -, -, -, he⟩
  · rw [he]
  · rw [he]
    exact deleteAll_invariant (fun e => e.maxProcesses = d.maxProcesses) (fun _ _ => True)
      (fun _ _ he _ => delete_maxProcesses.trans he) (fun _ _ _ _ => trivial) rfl fun _ _ => trivial
  · rw [he]
    refine createInstances_invariant (fun e => e.maxProcesses = d.maxProcesses)
      (fun _ _ => True) (fun e i _ name _ he _ => ?_) (fun _ _ _ _ _ _ _ _ => trivial) rfl
      fun _ _ => trivial
    exact createInstance_invariant (fun e => e.maxProcesses = d.maxProcesses)
      (fun _ _ he => he) (fun _ he => startWithSpec_maxProcesses he _) he

theorem restore_maxProcesses : (d.restore h).1.maxProcesses = d.maxProcesses := by
  unfold restore
  cases d.specDir.loadAll h with
  | error e => rfl
  | ok specs =>
      exact Run.invariant (fun e : Daemon => e.maxProcesses = d.maxProcesses)
        (fun e s he => restoreSpec_maxProcesses.trans he) specs rfl

/-- No operation touches the limit itself. -/
theorem turn_maxProcesses (t : Turn) : (d.turn t).maxProcesses = d.maxProcesses := by
  cases t with
  | edit dir => rfl
  | op h o =>
      cases o with
      | addStoppedSpec s =>
          exact addStoppedSpec_invariant (fun e => e.maxProcesses = d.maxProcesses) rfl
            fun _ _ => rfl
      | restore => exact restore_maxProcesses
      | startWithSpec s => exact startWithSpec_maxProcesses rfl s
      | stop id => exact stop_maxProcesses
      | delete id => exact delete_maxProcesses
      | restart id =>
          exact restart_invariant (fun e => e.maxProcesses = d.maxProcesses) rfl
            (fun _ _ _ _ _ _ => rfl) fun _ _ _ _ _ _ => ⟨fun _ => rfl, fun _ => rfl⟩
      | reset id =>
          exact reset_invariant (fun e => e.maxProcesses = d.maxProcesses) rfl fun _ _ => rfl
      | reload id =>
          show (d.reload h id).1.maxProcesses = d.maxProcesses
          cases hl : d.specDir.loadSpec h id with
          | error e => rw [reload_of_error hl]
          | ok t =>
              have hdrop : (d.dropForReload h id (reloadedSpec t)).maxProcesses = d.maxProcesses :=
                stop_maxProcesses
              rw [(reload_of_load hl).1]
              exact startWithSpec_maxProcesses hdrop _
      | scale ns base target => exact scale_maxProcesses
      | shutdown =>
          refine Run.invariant (fun e : Daemon => e.maxProcesses = d.maxProcesses)
            (fun e id he => ?_) _ rfl
          cases hp : e.processes.lookup id with
          | none => rw [shutdownProcess_of_none hp, he]
          | some p => rw [shutdownProcess_of_lookup hp]; exact he

/-- **The limit along a run.** From the empty registry on, at most `m` processes are registered at
every point of a run exactly if every disabled spec the run inserts fits. -/
theorem withinLimit_iff_along (hm : 0 < m) (maxErr : Option String) (dir : SpecDir)
    (l : List Turn) :
    (∀ k, k <+: l → (k.foldl turn (fresh m maxErr dir)).processes.size ≤ m) ↔
      Along turn RespectsLimit (fresh m maxErr dir) l := by
  apply forall_prefix_iff_along (fun d : Daemon => d.maxProcesses = m)
    (fun d : Daemon => d.processes.size ≤ m)
  · intro d t hd
    exact (turn_maxProcesses t).trans hd
  · intro d t hd hsize
    rw [← turn_withinLimit hm t ⟨hd, hsize⟩]
    exact ⟨fun hle => ⟨(turn_maxProcesses t).trans hd, hle⟩, fun hw => hw.size⟩
  · rfl
  · exact Nat.zero_le m

/-- A disabled spec under an id. -/
def disabledSpec (id : String) : AppSpec := { plainSpec id with disabled := true }

/-- Two specs on disk, both of processes that were stopped. -/
def twoDisabled : SpecDir :=
  AList.insert demoId (.spec (disabledSpec demoId)) (AList.insert (userHost.newId 0)
    (.spec (disabledSpec (userHost.newId 0))) ∅)

/-- Both fit under a limit of two. -/
theorem withinLimit_twoDisabled :
    0 < 2 ∧ ∀ k, k <+: [Turn.op userHost .restore] →
      (k.foldl turn (fresh 2 none twoDisabled)).processes.size ≤ 2 := by
  have hload : SpecDir.loadAll userHost twoDisabled =
      .ok [(disabledSpec demoId).withNamespace,
        (disabledSpec (userHost.newId 0)).withNamespace] := by
    decide +kernel
  refine ⟨by decide, (withinLimit_iff_along (by decide) none twoDisabled _).mpr ⟨?_, trivial⟩⟩
  intro specs hs
  obtain rfl := Except.ok.inj (hload.symm.trans hs)
  decide +kernel

/-- A limit of one, and two processes after the restore. -/
theorem restore_exceeds_limit :
    ((fresh 1 none twoDisabled).turn (.op userHost .restore)).processes.size = 2 := by
  decide +kernel

end Daemon

end Unitpm
