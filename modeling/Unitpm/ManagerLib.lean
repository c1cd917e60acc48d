import Unitpm.Manager

/-! # What the operations of the manager do

One lemma or two for each operation: the state it leaves, by the case it takes.  The invariants
of the other modules are derived from these and never unfold an operation. -/

namespace Unitpm

namespace Daemon

variable {h : Host} {d : Daemon} {s : AppSpec} {id : String}

theorem mem_keys {r : Registry} {id : String} :
    id ∈ r.entries.keys ↔ ∃ p, r.lookup id = some p := by
  rw [← AList.mem_keys, ← AList.lookup_isSome, Option.isSome_iff_exists]
  rfl

/-- Nothing stands in the way of starting the spec: limits, registry, id, cron interval,
command, working directory, environment file, spawn. -/
def CanStart (h : Host) (d : Daemon) (s : AppSpec) : Prop :=
  ∃ p, d.admission h s = .ok p ∧ p.startError h = none

/-- The spec directory after a successful start. -/
def dirAfterStart (h : Host) (d : Daemon) (s : AppSpec) : SpecDir :=
  if s.disabled then (d.specDir.saveSpec h s.id { s with disabled := false }).1 else d.specDir

theorem admission_ok {p : Process} (hp : d.admission h s = .ok p) :
    d.processes.lookup s.id = none ∧ Process.new h s = .ok p := by
  unfold admission at hp
  split at hp
  · cases hp
  · split at hp
    · cases hp
    · split at hp
      · cases hp
      · rename_i hn
        split at hp
        · cases hp
        · obtain rfl := Except.ok.inj hp
          exact ⟨by simpa using hn, ‹_›⟩

theorem startWithSpec_of_canStart {p : Process} (hp : d.admission h s = .ok p)
    (he : p.startError h = none) :
    d.startWithSpec h s =
      ({ d with specDir := d.dirAfterStart h s }.put (d.os.spawn h p.info.id p.spec)
          (p.started h (h.newPid d.os.pids)), .ok (p.started h (h.newPid d.os.pids)).info) := by
  unfold startWithSpec Process.startProcess dirAfterStart
  rw [hp]
  simp only [he]
  split <;> rfl

theorem startWithSpec_of_not_canStart (hn : ¬ d.CanStart h s) :
    ∃ e, d.startWithSpec h s = (d, .error e) := by
  unfold startWithSpec Process.startProcess
  cases hp : d.admission h s with
  | error e => exact ⟨e, rfl⟩
  | ok p =>
      simp only
      cases he : p.startError h with
      | none => exact absurd ⟨p, hp, he⟩ hn
      | some e => exact ⟨_, rfl⟩

theorem canStart_congr {d' : Daemon} (hm : d'.maxProcesses = d.maxProcesses)
    (he : d'.maxProcessesErr = d.maxProcessesErr) (hs : d'.processes.size = d.processes.size)
    (hl : d'.processes.lookup s.id = d.processes.lookup s.id) :
    d'.CanStart h s ↔ d.CanStart h s := by
  unfold CanStart admission
  rw [hm, he, hs, hl]

theorem startWithSpec_ok_iff :
    (∃ i, (d.startWithSpec h s).2 = .ok i) ↔ d.CanStart h s := by
  constructor
  · rintro ⟨i, hi⟩
    by_contra hn
    obtain ⟨e, he⟩ := startWithSpec_of_not_canStart hn
    rw [he] at hi
    cases hi
  · rintro ⟨p, hp, he⟩
    rw [startWithSpec_of_canStart hp he]
    exact ⟨_, rfl⟩

theorem stop_of_lookup {p : Process} (hp : d.processes.lookup id = some p) :
    d.stop h id =
      ((d.put d.os p.userStopped).saveWarn h { p.spec with disabled := true }, .ok ()) := by
  unfold stop
  rw [hp]
  simp only [Process.stop_true]
  rfl

theorem stop_of_none (hp : d.processes.lookup id = none) :
    d.stop h id = (d, .error (.processNotFound id)) := by
  unfold stop
  rw [hp]

@[simp] theorem put_lookup (os : Os) (p : Process) :
    (d.put os p).processes.lookup = Function.update d.processes.lookup p.info.id (some p) :=
  d.processes.lookup_insert p

@[simp] theorem remove_lookup :
    (d.remove id).processes.lookup = Function.update d.processes.lookup id none :=
  d.processes.lookup_erase id

@[simp] theorem put_os (os : Os) (p : Process) : (d.put os p).os = os := rfl

@[simp] theorem put_specDir (os : Os) (p : Process) : (d.put os p).specDir = d.specDir := rfl

@[simp] theorem remove_os : (d.remove id).os = d.os := rfl

@[simp] theorem remove_specDir : (d.remove id).specDir = d.specDir := rfl

@[simp] theorem saveWarn_processes : (d.saveWarn h s).processes = d.processes := rfl

@[simp] theorem saveWarn_os : (d.saveWarn h s).os = d.os := rfl

theorem stop_os : (d.stop h id).1.os = d.os := by
  cases hp : d.processes.lookup id with
  | none => rw [stop_of_none hp]
  | some p => rw [stop_of_lookup hp]; rfl

theorem stop_lookup : (d.stop h id).1.processes.lookup =
    Function.update d.processes.lookup id ((d.processes.lookup id).map Process.userStopped) := by
  cases hp : d.processes.lookup id with
  | none => rw [stop_of_none hp, Option.map_none, ← hp, Function.update_eq_self]
  | some p =>
      rw [stop_of_lookup hp, saveWarn_processes, put_lookup, Process.userStopped_id,
        Registry.info_id hp, Option.map_some]

theorem delete_of_lookup {p : Process} (hp : d.processes.lookup id = some p) :
    d.delete h id = ((d.stop h id).1.remove id, .ok ()) := by
  unfold delete
  simp only [stop_lookup, Function.update_self, hp, Option.map_some]

theorem delete_of_none (hp : d.processes.lookup id = none) :
    d.delete h id = (d, .error (.processNotFound id)) := by
  unfold delete
  simp only [stop_of_none hp, hp]

theorem delete_os : (d.delete h id).1.os = d.os := by
  cases hp : d.processes.lookup id with
  | none => rw [delete_of_none hp]
  | some p => rw [delete_of_lookup hp, remove_os, stop_os]

theorem delete_lookup :
    (d.delete h id).1.processes.lookup = Function.update d.processes.lookup id none := by
  cases hp : d.processes.lookup id with
  | none => rw [delete_of_none hp, ← hp, Function.update_eq_self]
  | some p => rw [delete_of_lookup hp, remove_lookup, stop_lookup, Function.update_idem]

theorem dropForReload_lookup :
    (d.dropForReload h id s).processes.lookup = Function.update d.processes.lookup id none := by
  rw [dropForReload, remove_lookup, stop_lookup, Function.update_idem, saveWarn_processes]

/-- The reloaded spec can be started once the old entry is gone, whatever else `reload` did. -/
theorem canStart_dropForReload :
    (d.dropForReload h id s).CanStart h s ↔ (d.remove id).CanStart h s := by
  have hlk : (d.dropForReload h id s).processes.lookup =
      Function.update d.processes.lookup id none := dropForReload_lookup
  cases hp : d.processes.lookup id with
  | none =>
      have hp' : (d.saveWarn h s).processes.lookup id = none := hp
      unfold dropForReload
      rw [stop_of_none hp']
      exact canStart_congr rfl rfl rfl rfl
  | some p =>
      have hp' : (d.saveWarn h s).processes.lookup id = some p := hp
      refine canStart_congr ?_ ?_ ?_ ?_
      · rw [dropForReload, stop_of_lookup hp']; rfl
      · rw [dropForReload, stop_of_lookup hp']; rfl
      · rw [dropForReload, stop_of_lookup hp']
        have hid : p.info.id = id := Registry.info_id hp
        simp [Registry.size, remove, Registry.erase, put, saveWarn, Registry.insert, hid,
          AList.keys_erase, AList.keys_insert]
      · rw [hlk, remove_lookup]

theorem dropForReload_os : (d.dropForReload h id s).os = d.os := by
  rw [dropForReload, remove_os, stop_os, saveWarn_os]

theorem shutdownProcess_of_lookup {p : Process} (hp : d.processes.lookup id = some p) :
    d.shutdownProcess h id = d.put (p.stop h d.os false).1 (p.stop h d.os false).2 := by
  unfold shutdownProcess
  rw [hp]

theorem shutdownProcess_of_none (hp : d.processes.lookup id = none) :
    d.shutdownProcess h id = d := by
  unfold shutdownProcess
  rw [hp]

theorem restart_of_startError {p q : Process} {os : Os} {e : String}
    (hp : d.processes.lookup id = some p) (hq : p.bumped.stop h d.os false = (os, q))
    (he : q.startError h = some e) : d.restart h id = (d.put os q, .error (.spawn e)) := by
  unfold restart
  rw [hp]
  simp only [Process.restart_resetBackoff, Process.startProcess, hq, he]

theorem restart_of_none (hp : d.processes.lookup id = none) :
    d.restart h id = (d, .error (.processNotFound id)) := by
  unfold restart
  rw [hp]

/-- A restart whose start succeeds also clears the `disabled` flag, in memory and on disk, if
the process was started from a disabled spec. -/
theorem restart_of_started {p q : Process} {os : Os} (hp : d.processes.lookup id = some p)
    (hq : p.bumped.stop h d.os false = (os, q)) (he : q.startError h = none) :
    d.restart h id =
      (let q' := q.started h (h.newPid os.pids)
       let os' := os.spawn h q.info.id q.spec
       (if q.spec.disabled then (d.put os' q'.enabled).saveWarn h q'.enabled.spec
        else d.put os' q', .ok ())) := by
  unfold restart
  rw [hp]
  simp only [Process.restart_resetBackoff, Process.startProcess, hq, he]
  split
  · rename_i hd
    have hd' : q.spec.disabled = true := hd
    rw [if_pos hd']
  · rename_i hd
    have hd' : ¬ q.spec.disabled = true := hd
    rw [if_neg hd']

theorem reload_of_load {t : AppSpec} (hl : d.specDir.loadSpec h id = .ok t) :
    (d.reload h id).1 =
        ((d.dropForReload h id (reloadedSpec t)).startWithSpec h (reloadedSpec t)).1 ∧
      ((d.reload h id).2 = .ok () ↔
        (d.dropForReload h id (reloadedSpec t)).CanStart h (reloadedSpec t)) := by
  unfold reload
  rw [hl]
  simp only [← startWithSpec_ok_iff]
  cases hs : (d.dropForReload h id (reloadedSpec t)).startWithSpec h (reloadedSpec t) with
  | mk d' r =>
      cases r with
      | error e => exact ⟨rfl, by simp⟩
      | ok i => exact ⟨rfl, by simp⟩

theorem reload_of_error {e : String} (hl : d.specDir.loadSpec h id = .error e) :
    d.reload h id = (d, .error (.reload e)) := by
  unfold reload
  rw [hl]

/-- What `scale` does to the state: nothing, a run of deletions, or a run of creations. -/
theorem scale_cases (h : Host) (d : Daemon) (ns base : String) (target : ℕ) :
    (d.scale h ns base target).1 = d ∨
      (target ≤ 1024 ∧ target < (d.scaleSnapshot h (scaleNs ns) base).members.length ∧
        (d.scale h ns base target).1 = (d.deleteAll h
          (((d.scaleSnapshot h (scaleNs ns) base).members.drop target).map Prod.snd).reverse).1) ∨
      ∃ template, (d.scaleSnapshot h (scaleNs ns) base).template = some template ∧
        (d.scaleSnapshot h (scaleNs ns) base).members.length < target ∧ target ≤ 1024 ∧
        (d.scale h ns base target).1 = (createInstances h template (scaleNs ns) d
          (newNames base (target - (d.scaleSnapshot h (scaleNs ns) base).members.length)
            ((d.scaleSnapshot h (scaleNs ns) base).members.map Prod.fst) 1)).1 := by
  unfold scale
  split
  · exact Or.inl rfl
  · simp only
    split
    · exact Or.inl rfl
    · split
      · refine Or.inr (Or.inl ⟨by omega, ‹_›, ?_⟩)
        split <;> simp_all
      · split
        · exact Or.inl rfl
        · refine Or.inr (Or.inr ⟨_, ‹_›, by omega, by omega, ?_⟩)
          split <;> simp_all

theorem mem_list {i : ProcessInfo} :
    i ∈ d.list h ↔ ∃ p, d.processes.lookup i.id = some p ∧ p.info = i := by
  unfold list
  rw [List.mem_map]
  constructor
  · rintro ⟨⟨id, p⟩, he, rfl⟩
    have hp := (h.mem_iter _).mp he
    exact ⟨p, by rw [d.processes.keyed id p hp]; exact hp, rfl⟩
  · rintro ⟨p, hp, rfl⟩
    exact ⟨(p.info.id, p), (h.mem_iter _).mpr hp, rfl⟩

/-! ### Rules for the operations

What holds before an operation and in each of the states it can leave, holds after it. -/

theorem startWithSpec_invariant (Inv : Daemon → Prop) (hd : Inv d)
    (hstart : ∀ p, d.admission h s = .ok p → p.startError h = none →
      Inv ({ d with specDir := d.dirAfterStart h s }.put (d.os.spawn h p.info.id p.spec)
        (p.started h (h.newPid d.os.pids)))) : Inv (d.startWithSpec h s).1 := by
  by_cases hc : d.CanStart h s
  · obtain ⟨p, hp, he⟩ := hc
    rw [startWithSpec_of_canStart hp he]
    exact hstart p hp he
  · obtain ⟨e, he⟩ := startWithSpec_of_not_canStart hc
    rw [he]
    exact hd

theorem addStoppedSpec_invariant (Inv : Daemon → Prop) (hd : Inv d)
    (hadd : ∀ p : Process, Process.new h s = .ok p →
      Inv (d.put d.os { p with noAutoRestart := true, stoppedByUser := true })) :
    Inv (d.addStoppedSpec h s).1 := by
  unfold addStoppedSpec
  cases hn : Process.new h s with
  | error e => exact hd
  | ok p => exact hadd p hn

theorem restoreSpec_invariant (Inv : Daemon → Prop)
    (hadd : s.disabled = true → Inv (d.addStoppedSpec h s).1)
    (hstart : s.disabled = false → Inv (d.startWithSpec h s).1) : Inv (d.restoreSpec h s) := by
  unfold restoreSpec
  cases hdis : s.disabled with
  | true => exact hadd hdis
  | false => exact hstart hdis

/-- A restart stops the process, and may start it again; if it was started from a disabled spec,
the flag is cleared in memory and on disk. -/
theorem restart_invariant (Inv : Daemon → Prop) (hd : Inv d)
    (hfail : ∀ p q os, d.processes.lookup id = some p → p.bumped.stop h d.os false = (os, q) →
      q.startError h ≠ none → Inv (d.put os q))
    (hstart : ∀ p q os, d.processes.lookup id = some p → p.bumped.stop h d.os false = (os, q) →
      q.startError h = none →
      (q.spec.disabled = true →
        Inv ((d.put (os.spawn h q.info.id q.spec)
          (q.started h (h.newPid os.pids)).enabled).saveWarn h
            (q.started h (h.newPid os.pids)).enabled.spec)) ∧
      (q.spec.disabled = false →
        Inv (d.put (os.spawn h q.info.id q.spec) (q.started h (h.newPid os.pids))))) :
    Inv (d.restart h id).1 := by
  cases hp : d.processes.lookup id with
  | none => rw [restart_of_none hp]; exact hd
  | some p =>
      cases hq : p.bumped.stop h d.os false with
      | mk os q =>
          cases he : q.startError h with
          | some e =>
              rw [restart_of_startError hp hq he]
              exact hfail p q os hp hq (by rw [he]; simp)
          | none =>
              obtain ⟨hdis, hen⟩ := hstart p q os hp hq he
              rw [restart_of_started hp hq he]
              cases hb : q.spec.disabled with
              | true => exact hdis hb
              | false => exact hen hb

theorem reset_invariant (Inv : Daemon → Prop) (hd : Inv d)
    (hreset : ∀ p, d.processes.lookup id = some p →
      Inv (d.put d.os { p with info := { p.info with restarts := 0 } })) : Inv (d.reset id).1 := by
  unfold reset
  cases hp : d.processes.lookup id with
  | none => exact hd
  | some p => exact hreset p hp

/-! ### Rules for the loops -/

theorem deleteInstance_fst : (d.deleteInstance h id).1 = (d.delete h id).1 := by
  unfold deleteInstance
  split <;> simp_all

/-- What a guarded deletion preserves, the scale-down loop preserves, provided that no deletion
undoes the guard of another id. -/
theorem deleteAll_invariant (Inv : Daemon → Prop) (ok : Daemon → String → Prop)
    (hdel : ∀ d id, Inv d → ok d id → Inv (d.delete h id).1)
    (hok : ∀ d id k, ok d k → ok (d.delete h id).1 k) {ids : List String} (hd : Inv d)
    (hids : ∀ k ∈ ids, ok d k) : Inv (d.deleteAll h ids).1 := by
  refine Run.untilError_invariant Inv ok (fun _ _ => True) ?_ ?_
    (List.pairwise_of_forall fun _ _ => trivial) hd hids
  · intro d id hd hid
    rw [deleteInstance_fst]
    exact hdel d id hd hid
  · intro d id k _ hk
    rw [deleteInstance_fst]
    exact hok d id k hk

theorem length_newNames (base : String) (count : ℕ) (taken : List String) (next : ℕ) :
    (newNames base count taken next).length = count := by
  induction count generalizing taken next with
  | zero => rfl
  | succ count ih => simp only [newNames, List.length_cons, ih]

/-- What the creation of a guarded instance preserves, the scale-up loop preserves, provided that
no creation undoes the guard of another. -/
theorem createInstances_invariant (Inv : Daemon → Prop) (ok : Daemon → ℕ → Prop)
    {template : AppSpec} {ns : String} {names : List String}
    (hcreate : ∀ d, ∀ i < names.length, ∀ name ∈ names, Inv d → ok d i →
      Inv (d.createInstance h (instanceSpec template (h.newId i) name ns)).1)
    (hok : ∀ d, ∀ i < names.length, ∀ j < names.length, ∀ name, i ≠ j → ok d j →
      ok (d.createInstance h (instanceSpec template (h.newId i) name ns)).1 j)
    (hd : Inv d) (hnew : ∀ i < names.length, ok d i) :
    Inv (createInstances h template ns d names).1 := by
  have hidx : names.zipIdx.Pairwise fun a b => a.2 ≠ b.2 :=
    List.pairwise_map.mp (List.nodup_zipIdx_map_snd names)
  have hmem : ∀ n ∈ names.zipIdx, n.1 ∈ names ∧ n.2 < names.length :=
    fun n hn => ⟨List.fst_mem_of_mem_zipIdx hn, List.snd_lt_of_mem_zipIdx hn⟩
  refine Run.untilError_invariant Inv (fun d n => (n.1 ∈ names ∧ n.2 < names.length) ∧ ok d n.2)
    (fun a b => a.2 < names.length ∧ a.2 ≠ b.2) ?_ ?_ ?_ hd ?_
  · rintro d ⟨name, i⟩ hd ⟨⟨hn, hlt⟩, hi⟩
    exact hcreate d i hlt name hn hd hi
  · rintro d ⟨name, i⟩ ⟨name', j⟩ ⟨hlt, hij⟩ ⟨hn, hj⟩
    exact ⟨hn, hok d i hlt j hn.2 name hij hj⟩
  · exact hidx.imp_of_mem fun ha _ hab => ⟨(hmem _ ha).2, hab⟩
  · intro n hn
    exact ⟨hmem n hn, hnew n.2 (hmem n hn).2⟩

/-- The ids generated while scaling are new: `Uuid::now_v7` gives no id twice. -/
def FreshIds (h : Host) (d : Daemon) : Prop :=
  Set.InjOn h.newId (Set.Iio 1024) ∧ ∀ i < 1024, d.processes.lookup (h.newId i) = none

/-- What a start preserves whatever is on disk, the creation of an instance preserves. -/
theorem createInstance_invariant (Inv : Daemon → Prop)
    (hdir : ∀ d dir, Inv d → Inv { d with specDir := dir })
    (hstart : ∀ d, Inv d → Inv (d.startWithSpec h s).1) (hd : Inv d) :
    Inv (d.createInstance h s).1 := by
  unfold createInstance
  split
  · exact hdir d _ hd
  · rename_i dir _ _
    have h1 := hstart { d with specDir := dir } (hdir d dir hd)
    cases hr : startWithSpec h { d with specDir := dir } s with
    | mk d' r =>
        rw [hr] at h1
        cases r with
        | error e => exact hdir d' _ h1
        | ok _ => exact h1

theorem startWithSpec_lookup_of_ne {k : String} (hk : k ≠ s.id) :
    (d.startWithSpec h s).1.processes.lookup k = d.processes.lookup k := by
  by_cases hc : d.CanStart h s
  · obtain ⟨p, hp, he⟩ := hc
    have hid : p.info.id = s.id := by rw [p.id_eq, (Process.new_ok (admission_ok hp).2).1]
    rw [startWithSpec_of_canStart hp he, put_lookup, Process.started_id, hid,
      Function.update_of_ne hk]
  · obtain ⟨e, he⟩ := startWithSpec_of_not_canStart hc
    rw [he]

theorem createInstance_lookup_of_ne {k : String} (hk : k ≠ s.id) :
    (d.createInstance h s).1.processes.lookup k = d.processes.lookup k :=
  createInstance_invariant (fun d' => d'.processes.lookup k = d.processes.lookup k)
    (fun _ _ hd => hd) (fun _ hd => (startWithSpec_lookup_of_ne hk).trans hd) rfl

theorem createInstances_fresh (Inv : Daemon → Prop) {template : AppSpec} {ns : String}
    {names : List String} (hcreate : ∀ d s, Inv d → d.processes.lookup s.id = none →
      Inv (d.createInstance h s).1)
    (hd : Inv d) (hnew : FreshIds h d) (hlen : names.length ≤ 1024) :
    Inv (createInstances h template ns d names).1 := by
  refine createInstances_invariant Inv (fun d i => d.processes.lookup (h.newId i) = none)
    (fun d i _ name _ hd hi => hcreate d _ hd hi) ?_ hd fun i hi => hnew.2 i (by omega)
  intro d i hi j hj name hij hn
  have hne : h.newId j ≠ h.newId i := fun he =>
    hij (hnew.1 (Set.mem_Iio.mpr (by omega)) (Set.mem_Iio.mpr (by omega)) he.symm)
  rw [createInstance_lookup_of_ne (s := instanceSpec template (h.newId i) name ns) hne]
  exact hn

theorem saveSpec_of_saves (hw : h.Saves) (d : Daemon) (s : AppSpec) :
    d.specDir.saveSpec h s.id s = ((d.saveWarn h s).specDir, .ok ()) := by
  simp only [saveWarn, SpecDir.saveSpec, hw s.id s]

/-- The creation of an instance whose save succeeds: the start over the new file, or the file
removed again. -/
theorem createInstance_of_saved (hw : h.Saves) :
    (d.CanStart h s → (d.createInstance h s).1 = ((d.saveWarn h s).startWithSpec h s).1) ∧
      (¬ d.CanStart h s → (d.createInstance h s).1 = (d.saveWarn h s).deleteSpec h s.id) := by
  have hd : { d with specDir := (d.saveWarn h s).specDir } = d.saveWarn h s := rfl
  unfold createInstance
  rw [saveSpec_of_saves hw]
  simp only [hd]
  constructor
  · rintro ⟨p, hp, he⟩
    rw [startWithSpec_of_canStart (d := d.saveWarn h s) hp he]
  · intro hn
    obtain ⟨e, he⟩ := startWithSpec_of_not_canStart (d := d.saveWarn h s) hn
    rw [he]

/-! ### The files, where every save succeeds -/

theorem saveWarn_file (hw : h.Saves) :
    (d.saveWarn h s).specDir.file = Function.update d.specDir.file s.id (some (.spec s)) :=
  SpecDir.file_saveSpec hw d.specDir s.id s

theorem dirAfterStart_file (hw : h.Saves) :
    (d.dirAfterStart h s).file =
      if s.disabled then
        Function.update d.specDir.file s.id (some (.spec { s with disabled := false }))
      else d.specDir.file := by
  unfold dirAfterStart
  split
  · exact SpecDir.file_saveSpec hw ..
  · rfl

theorem stop_file (hw : h.Saves) {p : Process} (hp : d.processes.lookup id = some p) :
    (d.stop h id).1.specDir.file =
      Function.update d.specDir.file id (some (.spec { p.spec with disabled := true })) := by
  obtain rfl : p.spec.id = id := Registry.spec_id hp
  rw [stop_of_lookup hp, saveWarn_file hw, put_specDir]

theorem delete_file (hw : h.Saves) {p : Process} (hp : d.processes.lookup id = some p) :
    (d.delete h id).1.specDir.file =
      Function.update d.specDir.file id (some (.spec { p.spec with disabled := true })) := by
  rw [delete_of_lookup hp, remove_specDir, stop_file hw hp]

/-- The file when `reload` comes to its start: what the stop wrote, if there was a process. -/
theorem dropForReload_file (hw : h.Saves) (hid : s.id = id) :
    (d.dropForReload h id s).specDir.file = Function.update d.specDir.file id (some (.spec
      (((d.processes.lookup id).map fun p => { p.spec with disabled := true }).getD s))) := by
  subst hid
  rw [dropForReload, remove_specDir]
  cases hp : d.processes.lookup s.id with
  | none =>
      have hp' : (d.saveWarn h s).processes.lookup s.id = none := hp
      rw [stop_of_none hp', saveWarn_file hw]
      rfl
  | some p =>
      have hp' : (d.saveWarn h s).processes.lookup s.id = some p := hp
      rw [stop_file hw hp', saveWarn_file hw, Function.update_idem]
      rfl

end Daemon

end Unitpm
