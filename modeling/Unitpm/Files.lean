import Unitpm.Service

/-! # Spec files and registered processes

A process has a spec file exactly as long as it is registered: the CLI saves the file before it
asks for the start and removes it if the start is refused, the handler of `delete` removes it, and
`scale` does both for the instances it creates.  Three paths miss their part: `scale` deletes
surplus instances through `Manager::delete`, which leaves the file; `reload` drops the entry of a
process it then cannot start; and `unitpm apply` does not remove the file of a refused spec.

`Client.KeepsFiles` says that a command takes none of the three, and the runs made of such
commands keep the two sets equal (`specFiles_eq_registered_of_run`). -/

namespace Unitpm

open Run

/-- Every file operation succeeds. -/
structure Host.FilesWork (h : Host) : Prop where
  saves : h.Saves
  reads : h.Reads
  removes : ∀ id, h.specRemoveErr id = none

/-! ### One id -/

/-- Entry and file of one id: both there, the file under its own id, or both missing. -/
def MatchedAt (id : String) (o : Option Process) (f : Option SpecFile) : Prop :=
  (o = none ∧ f = none) ∨ ((∃ p, o = some p) ∧ ∃ t, f = some (.spec t) ∧ t.id = id)

/-- Entries and files match at every id. -/
def Matched (entry : String → Option Process) (file : String → Option SpecFile) : Prop :=
  ∀ id, MatchedAt id (entry id) (file id)

variable {entry : String → Option Process} {file : String → Option SpecFile} {h : Host}
  {d : Daemon} {id : String} {p : Process} {s t : AppSpec}

theorem Matched.update (hm : Matched entry file) {o : Option Process} {f : Option SpecFile}
    (ho : MatchedAt id o f) : Matched (Function.update entry id o) (Function.update file id f) := by
  intro k
  by_cases hk : k = id
  · subst hk
    rw [Function.update_self, Function.update_self]
    exact ho
  · rw [Function.update_of_ne hk, Function.update_of_ne hk]
    exact hm k

theorem matchedAt_none (id : String) : MatchedAt id none none := Or.inl ⟨rfl, rfl⟩

theorem matchedAt_some (ht : t.id = id) : MatchedAt id (some p) (some (.spec t)) :=
  Or.inr ⟨⟨p, rfl⟩, t, rfl, ht⟩

theorem MatchedAt.isSome_iff {o : Option Process} {f : Option SpecFile} (hm : MatchedAt id o f) :
    f.isSome = true ↔ o.isSome = true := by
  rcases hm with ⟨rfl, rfl⟩ | ⟨⟨p, rfl⟩, t, rfl, -⟩
  · simp
  · simp

/-! ### The operations -/

namespace Daemon

/-- Entries and files of the daemon match. -/
def Matched (d : Daemon) : Prop := Unitpm.Matched d.processes.lookup d.specDir.file

theorem Matched.stored (hd : d.Matched) (hp : d.processes.lookup id = some p) :
    ∃ t, d.specDir.file id = some (.spec t) ∧ t.id = id := by
  rcases hd id with ⟨hn, -⟩ | ⟨-, hf⟩
  · rw [hp] at hn
    cases hn
  · exact hf

theorem matched_put (hd : d.Matched) {os : Os} (hp : d.processes.lookup id = some p) {q : Process}
    (hq : q.info.id = id) : (d.put os q).Matched := by
  obtain ⟨t, hf, ht⟩ := hd.stored hp
  have := Matched.update hd (matchedAt_some (p := q) ht)
  rw [← hf, Function.update_eq_self] at this
  unfold Matched
  rw [put_lookup, hq]
  exact this

theorem matched_put_saveWarn (hw : h.Saves) (hd : d.Matched) {os : Os} (hs : s.id = p.info.id) :
    ((d.put os p).saveWarn h s).Matched := by
  unfold Matched
  rw [saveWarn_processes, put_lookup, saveWarn_file hw, put_specDir, hs]
  exact hd.update (matchedAt_some hs)

theorem matched_save_start (hw : h.Saves) (hd : d.Matched) (hid : t.id = s.id)
    (hc : d.CanStart h t) : ((d.saveWarn h s).startWithSpec h t).1.Matched := by
  obtain ⟨p, hp, he⟩ := hc
  rw [startWithSpec_of_canStart (d := d.saveWarn h s) hp he]
  unfold Matched
  rw [put_lookup, put_specDir, Process.started_id, Process.id_of_new (admission_ok hp).2]
  simp only
  rw [dirAfterStart_file hw, saveWarn_file hw, ← hid]
  split
  · rw [Function.update_idem]
    exact hd.update (matchedAt_some rfl)
  · exact hd.update (matchedAt_some hid.symm)

theorem matched_save_delete (hf : h.FilesWork) (hd : d.Matched)
    (hn : d.processes.lookup s.id = none) : ((d.saveWarn h s).deleteSpec h s.id).Matched := by
  have := Matched.update hd (matchedAt_none s.id)
  rw [← hn, Function.update_eq_self] at this
  unfold Matched deleteSpec
  rw [SpecDir.file_deleteSpec (hf.removes s.id), saveWarn_file hf.saves, Function.update_idem]
  exact this

theorem matched_stop (hw : h.Saves) (hd : d.Matched) : (d.stop h id).1.Matched := by
  cases hp : d.processes.lookup id with
  | none => rw [stop_of_none hp]; exact hd
  | some p => rw [stop_of_lookup hp]; exact matched_put_saveWarn hw hd p.id_eq.symm

theorem matched_deleteWithSpec (hf : h.FilesWork) (hd : d.Matched) :
    (d.deleteWithSpec h id).1.Matched := by
  unfold deleteWithSpec
  cases hp : d.processes.lookup id with
  | none => rw [delete_of_none hp]; exact hd
  | some p =>
      have hfile := delete_file hf.saves hp
      have hlook : (d.delete h id).1.processes.lookup =
          Function.update d.processes.lookup id none := delete_lookup
      rw [delete_of_lookup hp] at hfile hlook ⊢
      simp only
      unfold Matched deleteSpec
      rw [SpecDir.file_deleteSpec (hf.removes id), hfile, Function.update_idem]
      simp only
      rw [hlook]
      exact hd.update (matchedAt_none id)

theorem matched_restart (hw : h.Saves) (hd : d.Matched) : (d.restart h id).1.Matched := by
  have hid : ∀ p q os, d.processes.lookup id = some p → p.bumped.stop h d.os false = (os, q) →
      q.info.id = id :=
    fun p q os hp hq => (Process.bumped_stop_fields hq).2.1.trans (Registry.info_id hp)
  refine restart_invariant Matched hd (fun p q os hp hq _ => ?_) fun p q os hp hq _ => ?_
  · exact matched_put hd hp (hid p q os hp hq)
  · exact ⟨fun _ => matched_put_saveWarn hw hd q.id_eq.symm,
      fun _ => matched_put hd hp (hid p q os hp hq)⟩

theorem matched_reset (hd : d.Matched) : (d.reset id).1.Matched :=
  reset_invariant Matched hd fun p hp => matched_put hd hp (Registry.info_id (p := p) hp)

/-- A reload keeps the entry only where what it has read can be started. -/
theorem matched_reload (hw : h.Saves) (hd : d.Matched)
    (hc : ∀ t, d.specDir.loadSpec h id = .ok t → (d.remove id).CanStart h (reloadedSpec t)) :
    (d.reload h id).1.Matched := by
  cases hl : d.specDir.loadSpec h id with
  | error e => rw [reload_of_error hl]; exact hd
  | ok t =>
      obtain ⟨u, hu, rfl⟩ := SpecDir.readSpec_ok hl
      have hid : (reloadedSpec u.withNamespace).id = id := by
        rcases hd id with ⟨-, hn⟩ | ⟨-, v, hv, hvid⟩
        · rw [hu] at hn
          cases hn
        · rw [hu] at hv
          cases hv
          exact hvid
      obtain ⟨q, hq, he⟩ := canStart_dropForReload.mpr (hc _ hl)
      rw [(reload_of_load hl).1, startWithSpec_of_canStart hq he]
      unfold Matched
      rw [put_lookup, put_specDir, Process.started_id, Process.id_of_new (admission_ok hq).2, hid]
      simp only
      rw [dirAfterStart_file hw, if_neg (by simp [reloadedSpec]), dropForReload_lookup,
        Function.update_idem, dropForReload_file hw hid]
      refine hd.update (matchedAt_some ?_)
      cases hp : d.processes.lookup id with
      | none => exact hid
      | some p => exact Registry.spec_id hp

theorem matched_createInstance (hf : h.FilesWork) (hd : d.Matched)
    (hn : d.processes.lookup s.id = none) : (d.createInstance h s).1.Matched := by
  obtain ⟨h1, h2⟩ := createInstance_of_saved (d := d) (s := s) hf.saves
  by_cases hc : d.CanStart h s
  · rw [h1 hc]
    exact matched_save_start hf.saves hd rfl hc
  · rw [h2 hc]
    exact matched_save_delete hf hd hn

theorem matched_scale {ns base : String} {target : ℕ} (hf : h.FilesWork) (hd : d.Matched)
    (hup : target ≤ 1024 → (d.scaleSnapshot h (scaleNs ns) base).members.length ≤ target)
    (hnew : FreshIds h d) : (d.scale h ns base target).1.Matched := by
  rcases scale_cases h d ns base target with
    he | ⟨ht, hlt, -⟩ | ⟨template, -, -, ht, he⟩
  · rw [he]
    exact hd
  · exact absurd (hup ht) (by omega)
  · rw [he]
    exact createInstances_fresh Matched (fun d s hd hn => matched_createInstance hf hd hn) hd hnew
      (by rw [length_newNames]; omega)

variable {privileged : Bool} {identity : Identity}

theorem matched_clientStart (hf : h.FilesWork) (hd : d.Matched)
    (hn : d.processes.lookup s.id = none) : (d.clientStart h privileged identity s).Matched := by
  obtain ⟨h1, h2⟩ := clientStart_of_saved hf.saves privileged d identity s
  by_cases hc : d.CanHandle h privileged identity s
  · obtain ⟨hid, t, ht, hc⟩ := hc
    obtain ⟨-, f, c, rfl⟩ := admitRequest_ok ht
    rw [(h1 _ hid ht hc).1]
    exact matched_save_start hf.saves hd rfl hc
  · rw [(h2 hc).1]
    exact matched_save_delete hf hd hn

theorem matched_clientApply (hf : h.FilesWork) (hd : d.Matched)
    (hc : d.CanHandle h privileged identity s) :
    (d.clientApply h privileged identity s).Matched := by
  obtain ⟨h1, -⟩ := clientStart_of_saved hf.saves privileged d identity s
  obtain ⟨hid, t, ht, hc⟩ := hc
  obtain ⟨-, f, c, rfl⟩ := admitRequest_ok ht
  rw [(h1 _ hid ht hc).2]
  exact matched_save_start hf.saves hd rfl hc

/-- The ids that have a spec file. -/
def specFiles (d : Daemon) : Set String := {id | (d.specDir.lookup id).isSome = true}

/-- The ids that are registered. -/
def registered (d : Daemon) : Set String := {id | (d.processes.lookup id).isSome = true}

instance (d : Daemon) (id : String) : Decidable (id ∈ d.specFiles) :=
  inferInstanceAs (Decidable ((d.specDir.lookup id).isSome = true))

instance (d : Daemon) (id : String) : Decidable (id ∈ d.registered) :=
  inferInstanceAs (Decidable ((d.processes.lookup id).isSome = true))

theorem Matched.specFiles_eq (hd : d.Matched) : d.specFiles = d.registered :=
  Set.ext fun id => (hd id).isSome_iff

end Daemon

/-! ### Runs -/

/-- The commands that keep the files in step with the registry.  The id of a new spec is new; what
is applied or reloaded can be started; scaling deletes nothing. -/
def Client.KeepsFiles (privileged : Bool) (d : Daemon) (a : Host × Client) : Prop :=
  a.1.FilesWork ∧
    match a.2 with
    | .start _ s => d.processes.lookup s.id = none
    | .apply identity s => d.CanHandle a.1 privileged identity s
    | .reload target => ∀ id, d.resolveId a.1 target = .ok id →
        ∀ t, d.specDir.loadSpec a.1 id = .ok t →
          (d.remove id).CanStart a.1 (Daemon.reloadedSpec t)
    | .scale name ns target => 0 ≤ target →
        (target.toNat ≤ 1024 →
          (d.scaleSnapshot a.1 (Daemon.scaleNs ns) name).members.length ≤ target.toNat) ∧
        Daemon.FreshIds a.1 d
    | _ => True

theorem Daemon.matched_client {privileged : Bool} (d : Daemon) (a : Host × Client) (hd : d.Matched)
    (ha : Client.KeepsFiles privileged d a) : (d.client privileged a).Matched := by
  obtain ⟨h, c⟩ := a
  obtain ⟨hf, ha⟩ := ha
  cases c with
  | start identity s => exact matched_clientStart hf hd ha
  | apply identity s => exact matched_clientApply hf hd ha
  | stop target => exact idHandler_invariant Matched hd fun id _ => matched_stop hf.saves hd
  | delete target => exact idHandler_invariant Matched hd fun id _ => matched_deleteWithSpec hf hd
  | restart target => exact idHandler_invariant Matched hd fun id _ => matched_restart hf.saves hd
  | reload target =>
      exact idHandler_invariant Matched hd fun id hr => matched_reload hf.saves hd (ha id hr)
  | reset target => exact idHandler_invariant Matched hd fun id _ => matched_reset hd
  | scale name ns target =>
      exact scaleHandler_invariant Matched hd fun h0 => matched_scale hf hd (ha h0).1 (ha h0).2

/-- **Files and processes**: along every run of commands that keep the files, from a state in which
files and processes match, the ids with a spec file are the registered ids. -/
theorem specFiles_eq_registered_of_run (privileged : Bool) (d₀ : Daemon) (h₀ : d₀.Matched)
    (l : List (Host × Client))
    (hl : Along (Daemon.client privileged) (Client.KeepsFiles privileged) d₀ l) :
    (l.foldl (Daemon.client privileged) d₀).specFiles =
      (l.foldl (Daemon.client privileged) d₀).registered :=
  Daemon.Matched.specFiles_eq (Along.invariant Daemon.Matched Daemon.matched_client h₀ hl)

theorem Daemon.matched_fresh (maxProcesses : ℕ) (maxErr : Option String) :
    (Daemon.fresh maxProcesses maxErr ∅).Matched := matchedAt_none

theorem filesWork_userHost : userHost.FilesWork where
  saves _ _ := rfl
  reads := ⟨rfl, fun _ => rfl⟩
  removes _ := rfl

/-- A start and a stop by name. -/
def namedStop : List (Host × Client) :=
  [(userHost, .start ⟨"1000"⟩ (plainSpec demoId)), (userHost, .stop "default:api")]

theorem specFiles_eq_registered_of_run_stop :
    let d := namedStop.foldl (Daemon.client false) (Daemon.fresh 0 none ∅)
    demoId ∈ d.specFiles ∧ d.specFiles = d.registered :=
  ⟨by decide, specFiles_eq_registered_of_run false _ (Daemon.matched_fresh 0 none) namedStop
    ⟨⟨filesWork_userHost, rfl⟩, ⟨filesWork_userHost, trivial⟩, trivial⟩⟩

/-- A start, and the instance scaled away again. -/
def scaledAway : List (Host × Client) :=
  [(userHost, .start ⟨"1000"⟩ (plainSpec demoId)), (userHost, .scale "api" "" 0)]

/-- The instance is gone from the registry, its spec file is not. -/
theorem scale_leaves_file :
    let d := scaledAway.foldl (Daemon.client false) (Daemon.fresh 0 none ∅)
    userHost.FilesWork ∧ (Daemon.fresh 0 none ∅).specFiles = (Daemon.fresh 0 none ∅).registered ∧
      demoId ∈ d.specFiles ∧ demoId ∉ d.registered ∧ d.specFiles ≠ d.registered := by
  have h1 : demoId ∈
      (scaledAway.foldl (Daemon.client false) (Daemon.fresh 0 none ∅)).specFiles := by decide
  have h2 : demoId ∉
      (scaledAway.foldl (Daemon.client false) (Daemon.fresh 0 none ∅)).registered := by decide
  exact ⟨filesWork_userHost, (Daemon.matched_fresh 0 none).specFiles_eq, h1, h2,
    fun he => h2 (he ▸ h1)⟩

end Unitpm
