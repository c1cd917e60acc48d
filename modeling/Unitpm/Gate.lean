import Unitpm.Service

/-! # The gates and what is spawned

A start request passes `validate_spec` and `authorize_start` before anything is spawned.  A restart
spawns what is registered, and every instance `scale` creates is a copy of a registered spec; so
what was accepted once is accepted again, except for the name of an instance, which may grow past
the limit.  `reload` and `restore` spawn what they read from disk and ask no gate.

`Event.PassesGates` says that what is read from disk, and the names of new instances, would pass;
along the runs made of such events every spec a child is spawned from is accepted
(`spawned_accepted_of_run`). -/

namespace Unitpm

open Run

/-! ### Specs derived from accepted ones -/

variable {privileged : Bool} {s t : AppSpec} {h : Host} {d : Daemon} {id : String} {p : Process}

theorem namespaceRegexValid_default : namespaceRegexValid defaultNamespace = true := by decide

theorem namespaceRegexValid_displayNs (hs : Accepted privileged s) :
    namespaceRegexValid (displayNs s) = true := by
  obtain ⟨-, -, hns, -⟩ := validateSpec_ok_iff.mp hs.1
  unfold displayNs
  cases hn : nonEmpty s.ns with
  | none => exact namespaceRegexValid_default
  | some ns =>
      obtain ⟨he, hne⟩ := Option.filter_eq_some_iff.mp hn
      rw [he] at hns
      exact hns.resolve_left (by simpa [orEmpty] using hne)

theorem accepted_instanceSpec {name ns : String} (hs : Accepted privileged s)
    (hname : nameRegexValid name = true) (hns : namespaceRegexValid ns = true) :
    Accepted privileged (Daemon.instanceSpec s id name ns) := by
  obtain ⟨hexec, -, -, hlogs, hcron, henv, hstop, hres⟩ := validateSpec_ok_iff.mp hs.1
  refine ⟨validateSpec_ok_iff.mpr ⟨hexec, Or.inr hname, Or.inr hns, hlogs, hcron, ?_, hstop, hres⟩,
    hs.2⟩
  show validateEnv (s.env.getD .empty).entries = .ok ()
  cases he : s.env with
  | none => decide
  | some m => rw [he] at henv; exact henv

theorem accepted_withNamespace (hs : Accepted privileged s) :
    Accepted privileged s.withNamespace := by
  obtain ⟨hexec, hname, hns, hrest⟩ := validateSpec_ok_iff.mp hs.1
  refine ⟨validateSpec_ok_iff.mpr ⟨hexec, hname, ?_, hrest⟩, hs.2⟩
  unfold AppSpec.withNamespace
  by_cases hn : orEmpty s.ns = ""
  · rw [if_pos hn]
    exact Or.inr namespaceRegexValid_default
  · rw [if_neg hn]
    exact hns

theorem accepted_setDisabled (b : Bool) :
    Accepted privileged { s with disabled := b } ↔ Accepted privileged s :=
  accepted_congr rfl rfl rfl rfl rfl rfl rfl rfl rfl

theorem accepted_reloadedSpec (hs : Accepted privileged s) :
    Accepted privileged (Daemon.reloadedSpec s) :=
  (accepted_setDisabled false).mpr (accepted_withNamespace hs)

theorem accepted_of_admitRequest {identity : Identity}
    (ht : admitRequest h privileged identity s = .ok t) : Accepted privileged t := by
  obtain ⟨hs, f, c, rfl⟩ := admitRequest_ok ht
  exact (accepted_congr rfl rfl rfl rfl rfl rfl rfl rfl rfl).mpr hs

/-! ### The operations -/

namespace Daemon

/-- Everything registered and everything ever spawned is accepted. -/
structure Gated (privileged : Bool) (d : Daemon) : Prop where
  entries : ∀ id p, d.processes.lookup id = some p → Accepted privileged p.spec
  spawned : ∀ s ∈ d.os.spawned, Accepted privileged s

theorem Gated.entries_update (hd : d.Gated privileged) {o : Option Process}
    (ho : ∀ p, o = some p → Accepted privileged p.spec) :
    ∀ k q, Function.update d.processes.lookup id o k = some q → Accepted privileged q.spec :=
  Overlay.forall_update ho fun k q _ => hd.entries k q

theorem gated_put (hd : d.Gated privileged) {os : Os} (hp : Accepted privileged p.spec)
    (hos : ∀ s ∈ os.spawned, Accepted privileged s) : (d.put os p).Gated privileged where
  entries := by
    rw [put_lookup]
    apply hd.entries_update
    rintro q hq
    obtain rfl := Option.some.inj hq
    exact hp
  spawned := hos

theorem Gated.spawn (hd : d.Gated privileged) {os : Os} (hos : os.spawned = d.os.spawned)
    (hs : Accepted privileged s) (owner : String) :
    ∀ u ∈ (os.spawn h owner s).spawned, Accepted privileged u := by
  intro u hu
  rcases List.mem_cons.mp hu with rfl | hu
  · exact hs
  · exact hd.spawned u (hos ▸ hu)

theorem gated_remove (hd : d.Gated privileged) : (d.remove id).Gated privileged where
  entries := by
    rw [remove_lookup]
    exact hd.entries_update (by simp)
  spawned := hd.spawned

theorem gated_dir (hd : d.Gated privileged) (dir : SpecDir) :
    Gated privileged { d with specDir := dir } := ⟨hd.entries, hd.spawned⟩

theorem gated_startWithSpec (hd : d.Gated privileged) (hs : Accepted privileged s) :
    (d.startWithSpec h s).1.Gated privileged := by
  apply startWithSpec_invariant (Gated privileged) hd
  intro p hp _
  obtain ⟨rfl, -⟩ := Process.new_ok (admission_ok hp).2
  exact gated_put (gated_dir hd _) hs (hd.spawn rfl hs _)

theorem gated_addStoppedSpec (hd : d.Gated privileged) (hs : Accepted privileged s) :
    (d.addStoppedSpec h s).1.Gated privileged := by
  apply addStoppedSpec_invariant (Gated privileged) hd
  intro p hn
  obtain ⟨rfl, -⟩ := Process.new_ok hn
  exact gated_put hd hs hd.spawned

theorem gated_stop (hd : d.Gated privileged) : (d.stop h id).1.Gated privileged := by
  cases hp : d.processes.lookup id with
  | none => rw [stop_of_none hp]; exact hd
  | some p =>
      rw [stop_of_lookup hp]
      exact gated_dir (gated_put (p := p.userStopped) hd (hd.entries id p hp) hd.spawned) _

theorem gated_delete (hd : d.Gated privileged) : (d.delete h id).1.Gated privileged := by
  cases hp : d.processes.lookup id with
  | none => rw [delete_of_none hp]; exact hd
  | some p => rw [delete_of_lookup hp]; exact gated_remove (gated_stop hd)

theorem gated_deleteWithSpec (hd : d.Gated privileged) :
    (d.deleteWithSpec h id).1.Gated privileged := by
  have h1 : (d.delete h id).1.Gated privileged := gated_delete hd
  unfold deleteWithSpec
  cases hr : d.delete h id with
  | mk d' r =>
      rw [hr] at h1
      cases r with
      | error e => exact h1
      | ok _ => exact gated_dir h1 _

theorem gated_shutdownProcess (hd : d.Gated privileged) :
    (d.shutdownProcess h id).Gated privileged := by
  cases hp : d.processes.lookup id with
  | none => rw [shutdownProcess_of_none hp]; exact hd
  | some p =>
      rw [shutdownProcess_of_lookup hp]
      refine gated_put hd ?_ ?_
      · rw [(Process.stop_false_fields h d.os p).1]
        exact hd.entries id p hp
      · rw [Process.stop_spawned]
        exact hd.spawned

theorem gated_shutdown (hd : d.Gated privileged) : (d.shutdown h).Gated privileged :=
  Run.invariant (Gated privileged) (fun _ _ => gated_shutdownProcess) _ hd

theorem gated_restart (hd : d.Gated privileged) : (d.restart h id).1.Gated privileged := by
  have key : ∀ p q os, d.processes.lookup id = some p → p.bumped.stop h d.os false = (os, q) →
      Accepted privileged q.spec ∧ os.spawned = d.os.spawned := by
    intro p q os hp hq
    have hold : (p.bumped.stop h d.os false).1.spawned = d.os.spawned := Process.stop_spawned
    rw [hq] at hold
    exact ⟨(Process.bumped_stop_fields hq).1 ▸ hd.entries id p hp, hold⟩
  refine restart_invariant (Gated privileged) hd (fun p q os hp hq _ => ?_)
    fun p q os hp hq _ => ?_
  · obtain ⟨hok, hold⟩ := key p q os hp hq
    exact gated_put hd hok (hold ▸ hd.spawned)
  · obtain ⟨hok, hold⟩ := key p q os hp hq
    have hos := hd.spawn (h := h) hold hok q.info.id
    refine ⟨fun _ => gated_dir (gated_put hd ?_ hos) _, fun _ => gated_put hd hok hos⟩
    exact (accepted_setDisabled false).mpr hok

theorem gated_reset (hd : d.Gated privileged) : (d.reset id).1.Gated privileged :=
  reset_invariant (Gated privileged) hd fun p hp =>
    gated_put hd (hd.entries id p hp) hd.spawned

theorem gated_reload (hd : d.Gated privileged)
    (hs : ∀ t, d.specDir.loadSpec h id = .ok t → Accepted privileged t) :
    (d.reload h id).1.Gated privileged := by
  cases hl : d.specDir.loadSpec h id with
  | error e => rw [reload_of_error hl]; exact hd
  | ok t =>
      rw [(reload_of_load hl).1]
      refine gated_startWithSpec ?_ (accepted_reloadedSpec (hs t hl))
      exact gated_remove (gated_stop (gated_dir hd _))

theorem gated_restoreSpec (hd : d.Gated privileged) (hs : Accepted privileged s) :
    (d.restoreSpec h s).Gated privileged :=
  restoreSpec_invariant (Gated privileged) (fun _ => gated_addStoppedSpec hd hs)
    fun _ => gated_startWithSpec hd hs

theorem gated_restore (hd : d.Gated privileged)
    (hs : ∀ specs, d.specDir.loadAll h = .ok specs → ∀ s ∈ specs, Accepted privileged s) :
    (d.restore h).1.Gated privileged := by
  unfold restore
  cases hl : d.specDir.loadAll h with
  | error e => exact hd
  | ok specs =>
      exact Along.invariant (Gated privileged) (fun d s hd hs => gated_restoreSpec hd hs) hd
        (along_of_forall (fun _ s => Accepted privileged s) fun s hm _ => hs specs hl s hm)

theorem mem_addMember {ns base : String} {acc : List (String × String)} {e : String × Process}
    {m : String × String} (hm : m ∈ addMember ns base acc e) :
    m ∈ acc ∨ (m.2 = e.1 ∧ e.2.info.ns = ns) := by
  unfold addMember at hm
  split at hm
  · exact Or.inl hm
  · rename_i hns
    have hns : e.2.info.ns = ns := not_not.mp hns
    split at hm
    · rcases List.mem_cons.mp hm with rfl | hm
      · exact Or.inr ⟨rfl, hns⟩
      · exact Or.inl hm
    · split at hm
      · rcases List.mem_append.mp hm with hm | hm
        · exact Or.inl hm
        · obtain rfl := List.mem_singleton.mp hm
          exact Or.inr ⟨rfl, hns⟩
      · exact Or.inl hm

theorem mem_scaleSnapshot (h : Host) (d : Daemon) (ns base : String) :
    ∀ m ∈ (d.scaleSnapshot h ns base).members,
      ∃ p, d.processes.lookup m.2 = some p ∧ p.info.ns = ns := by
  have hall : Along (addMember ns base) (fun _ e => d.processes.lookup e.1 = some e.2) []
      (h.iter d.processes.entries) := along_of_forall _ fun e he _ => (h.mem_iter _).mp he
  refine Along.invariant
    (fun acc => ∀ m ∈ acc, ∃ p, d.processes.lookup m.2 = some p ∧ p.info.ns = ns) ?_ (by simp) hall
  intro acc e hacc he m hm
  rcases mem_addMember hm with hm | ⟨h2, hns⟩
  · exact hacc m hm
  · exact ⟨e.2, h2 ▸ he, hns⟩

theorem template_scaleSnapshot {ns base : String} {template : AppSpec}
    (ht : (d.scaleSnapshot h ns base).template = some template) :
    ∃ id p, d.processes.lookup id = some p ∧ p.info.ns = ns ∧ p.spec = template := by
  obtain ⟨m, hm, hmap⟩ := Option.bind_eq_some_iff.mp ht
  obtain ⟨p, hp, rfl⟩ := Option.map_eq_some_iff.mp hmap
  obtain ⟨q, hq, hns⟩ := mem_scaleSnapshot h d ns base m
    (List.mem_of_mem_head? hm)
  rw [hp] at hq
  obtain rfl := Option.some.inj hq
  exact ⟨m.2, p, hp, hns, rfl⟩

/-- The names a request to scale would give to new instances. -/
def scaledNames (h : Host) (d : Daemon) (ns base : String) (target : ℕ) : List String :=
  newNames base (target - (d.scaleSnapshot h (scaleNs ns) base).members.length)
    ((d.scaleSnapshot h (scaleNs ns) base).members.map Prod.fst) 1

theorem gated_scale {ns base : String} {target : ℕ} (hd : d.Gated privileged)
    (hn : ∀ name ∈ d.scaledNames h ns base target, nameRegexValid name = true) :
    (d.scale h ns base target).1.Gated privileged := by
  rcases scale_cases h d ns base target with
    he | ⟨-, -, he⟩ | ⟨template, ht, -, -, he⟩
  · rw [he]
    exact hd
  · rw [he]
    exact deleteAll_invariant (Gated privileged) (fun _ _ => True)
      (fun d id hd _ => gated_delete hd) (fun _ _ _ _ => trivial) hd fun _ _ => trivial
  · obtain ⟨id, p, hp, hns, rfl⟩ := template_scaleSnapshot ht
    have hok := hd.entries id p hp
    have hnsv : namespaceRegexValid (scaleNs ns) = true := by
      rw [← hns, p.ns_eq]
      exact namespaceRegexValid_displayNs hok
    rw [he]
    refine createInstances_invariant (Gated privileged) (fun _ _ => True) ?_
      (fun _ _ _ _ _ _ _ _ => trivial) hd fun _ _ => trivial
    intro d i _ name hname hd _
    exact createInstance_invariant (Gated privileged) (fun d dir hd => gated_dir hd dir)
      (fun d hd => gated_startWithSpec hd (accepted_instanceSpec hok (hn name hname) hnsv)) hd

theorem gated_startHandler {identity : Identity} (hd : d.Gated privileged) :
    (d.startHandler h privileged identity s).1.Gated privileged := by
  by_cases hc : d.CanHandle h privileged identity s
  · obtain ⟨hid, t, ht, hc⟩ := hc
    obtain ⟨r, hr⟩ := startHandler_of_canHandle hid ht hc
    rw [hr]
    exact gated_startWithSpec hd (accepted_of_admitRequest ht)
  · obtain ⟨e, he⟩ := startHandler_of_not_canHandle hc
    rw [he]
    exact hd

end Daemon

/-! ### Runs -/

/-- What happens to a daemon: requests, a restore, a shutdown, and anything at all to the files. -/
inductive Event where
  | request (r : Request)
  | restore
  | shutdown
  | edit (dir : SpecDir)

/-- One event on the machine it finds. -/
def Daemon.event (privileged : Bool) (d : Daemon) (a : Host × Event) : Daemon :=
  match a.2 with
  | .request r => (d.handle a.1 privileged r).1
  | .restore => (d.restore a.1).1
  | .shutdown => d.shutdown a.1
  | .edit dir => { d with specDir := dir }

/-- The events after which the gates still hold: what is read from disk, and the names of new
instances, would pass them. -/
def Event.PassesGates (privileged : Bool) (d : Daemon) (a : Host × Event) : Prop :=
  match a.2 with
  | .request (.reload target) => ∀ id, d.resolveId a.1 target = .ok id →
      ∀ t, d.specDir.loadSpec a.1 id = .ok t → Accepted privileged t
  | .request (.scale name ns target) => 0 ≤ target →
      ∀ n ∈ d.scaledNames a.1 ns name target.toNat, nameRegexValid n = true
  | .restore => ∀ specs, d.specDir.loadAll a.1 = .ok specs → ∀ s ∈ specs, Accepted privileged s
  | _ => True

theorem Daemon.gated_event (d : Daemon) (a : Host × Event) (hd : d.Gated privileged)
    (ha : Event.PassesGates privileged d a) : (d.event privileged a).Gated privileged := by
  obtain ⟨h, e⟩ := a
  cases e with
  | restore => exact gated_restore hd ha
  | shutdown => exact gated_shutdown hd
  | edit dir => exact gated_dir hd dir
  | request r =>
      cases r with
      | start identity s => exact gated_startHandler hd
      | stop target => exact idHandler_invariant _ hd fun id _ => gated_stop hd
      | delete target => exact idHandler_invariant _ hd fun id _ => gated_deleteWithSpec hd
      | restart target => exact idHandler_invariant _ hd fun id _ => gated_restart hd
      | reload target => exact idHandler_invariant _ hd fun id hr => gated_reload hd (ha id hr)
      | reset target => exact idHandler_invariant _ hd fun id _ => gated_reset hd
      | scale name ns target =>
          exact scaleHandler_invariant _ hd fun h0 => gated_scale hd (ha h0)

/-- **Gates**: along every run from a new manager in which what is read from disk and the names of
new instances would pass the gates, every spec a child is spawned from is accepted by both; a
privileged daemon spawns no shell command. -/
theorem spawned_accepted_of_run (privileged : Bool) (maxProcesses : ℕ) (maxErr : Option String)
    (dir : SpecDir) (l : List (Host × Event))
    (hl : Along (Daemon.event privileged) (Event.PassesGates privileged)
      (Daemon.fresh maxProcesses maxErr dir) l) :
    ∀ s ∈ (l.foldl (Daemon.event privileged) (Daemon.fresh maxProcesses maxErr dir)).os.spawned,
      validateSpec s = .ok () ∧ authorizeStart s privileged = .ok () ∧
        (privileged = true → s.exec.shell = false) := by
  have hfresh : (Daemon.fresh maxProcesses maxErr dir).Gated privileged :=
    ⟨fun _ _ hp => (by cases hp), fun _ hs => (by cases hs)⟩
  have hd := Along.invariant (Daemon.Gated privileged) Daemon.gated_event hfresh hl
  intro s hs
  have hok := hd.spawned s hs
  refine ⟨hok.1, hok.2, ?_⟩
  rintro rfl
  exact not_shell_of_accepted hok

/-- The same machine for a system daemon. -/
def systemHost : Host := plainHost true cleanEnv

/-- The plain spec edited to run in a shell. -/
def shellSpec : AppSpec where
  id := demoId
  name := "api"
  exec := { kind := "command", command := some "sleep", args := some ["30"], shell := true }

/-- A start request, an edit of the file, and a restart. -/
def shellRestart : List (Host × Event) :=
  [(systemHost, .request (.start ⟨"0"⟩ (plainSpec demoId))),
    (systemHost, .edit (AList.singleton demoId (.spec shellSpec))),
    (systemHost, .request (.restart "api"))]

theorem spawned_accepted_of_run_restart :
    let d := shellRestart.foldl (Daemon.event true) (Daemon.fresh 0 none ∅)
    d.os.spawned.length = 2 ∧ ∀ s ∈ d.os.spawned,
      validateSpec s = .ok () ∧ authorizeStart s true = .ok () ∧
        (true = true → s.exec.shell = false) :=
  ⟨by decide, spawned_accepted_of_run true 0 none ∅ shellRestart
    ⟨trivial, trivial, trivial, trivial⟩⟩

/-- A start request, an edit of the file, and a reload. -/
def shellReload : List (Host × Event) :=
  [(systemHost, .request (.start ⟨"0"⟩ (plainSpec demoId))),
    (systemHost, .edit (AList.singleton demoId (.spec shellSpec))),
    (systemHost, .request (.reload "api"))]

/-- The system daemon spawns the shell command that it refuses to start. -/
theorem reload_spawns_shell :
    let d := shellReload.foldl (Daemon.event true) (Daemon.fresh 0 none ∅)
    authorizeStart shellSpec true = .error .shellNotAllowed ∧
      ∃ s ∈ d.os.spawned, s.exec.shell = true ∧ ¬ Accepted true s := by
  refine ⟨by decide, Daemon.reloadedSpec shellSpec, by decide, rfl, by decide⟩

end Unitpm
