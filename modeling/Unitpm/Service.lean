import Unitpm.ManagerLib
import Unitpm.Validate

/-! # The requests of the daemon

`internal/daemon/handlers`: a request names a process by a selector, which is resolved first, and
is then one operation of the manager.  Only `start` passes the two gates, `validate_spec` and
`authorize_start`.

`Client` is what the commands `unitpm start` and `unitpm apply` do around their request: the spec
is saved before it is sent.  The other commands send their request and nothing else. -/

namespace Unitpm

/-! ### Handlers -/

/-- The requests that change the state of the daemon. -/
inductive Request where
  | start (identity : Identity) (s : AppSpec)
  | stop (target : String)
  | delete (target : String)
  | restart (target : String)
  | reload (target : String)
  | reset (target : String)
  | scale (name ns : String) (target : ℤ)

/-- What the handlers answer. -/
inductive Response where
  | started (id : String) (pid : ℕ) (state : ProcessState)
  | stopped (id : String) (wasRunning : Bool)
  | done (status id : String)
  | scaled (r : Daemon.ScaleResponse)
deriving DecidableEq

/-- `was_running`. -/
def wasRunning (state : ProcessState) : Bool :=
  state = .running || state = .restarting || state = .online

/-- The `env_file` of a start request is resolved if there is one. -/
def resolveEnvFile (h : Host) (identity : Identity) (s : AppSpec) : Except String AppSpec :=
  match s.envFile with
  | none => .ok s
  | some f =>
      if f = "" then .ok s
      else match validateEnvFile h f identity with
        | .error e => .error e
        | .ok resolved => .ok { s with envFile := some resolved }

/-- The same for `cwd`; an empty one counts as none. -/
def resolveCwd (h : Host) (s : AppSpec) : Except String AppSpec :=
  match s.cwd with
  | none => .ok s
  | some cwd =>
      if cwd = "" then .ok { s with cwd := none }
      else match validateCwd h cwd with
        | .error e => .error e
        | .ok resolved => .ok { s with cwd := some resolved }

/-- `service::start_process` up to the start: the gates, and the paths resolved. -/
def admitRequest (h : Host) (privileged : Bool) (identity : Identity) (s : AppSpec) :
    Except String AppSpec :=
  match validateSpec s with
  | .error e => .error e
  | .ok _ =>
      match authorizeStart s privileged with
      | .error e => .error e.toText
      | .ok _ =>
          match resolveEnvFile h identity s with
          | .error e => .error e
          | .ok s => resolveCwd h s

namespace Daemon

/-- `service::start_process`. -/
def startProcess (h : Host) (privileged : Bool) (d : Daemon) (identity : Identity) (s : AppSpec) :
    Daemon × Except String ProcessInfo :=
  match admitRequest h privileged identity s with
  | .error e => (d, .error e)
  | .ok s =>
      match d.startWithSpec h s with
      | (d, .error e) => (d, .error e.toText)
      | (d, .ok info) => (d, .ok info)

/-- `start_handler`. -/
def startHandler (h : Host) (privileged : Bool) (d : Daemon) (identity : Identity) (s : AppSpec) :
    Daemon × Except String Response :=
  if s.id = "" then (d, .error "ERR_BAD_REQUEST: spec ID is required")
  else match d.startProcess h privileged identity s with
    | (d, .error e) => (d, .error e)
    | (d, .ok info) => (d, .ok (.started info.id info.pid info.state))

/-- A handler whose request names a process: the selector is resolved, the operation run. -/
def idHandler (h : Host) (d : Daemon) (target : String)
    (action : Host → Daemon → String → Daemon × Except ManagerError Unit)
    (answer : String → Response) : Daemon × Except String Response :=
  match d.resolveId h target with
  | .error e => (d, .error e.toText)
  | .ok id =>
      match action h d id with
      | (d, .error e) => (d, .error e.toText)
      | (d, .ok _) => (d, .ok (answer id))

/-- `stop_handler`. -/
def stopHandler (h : Host) (d : Daemon) (target : String) : Daemon × Except String Response :=
  d.idHandler h target stop fun id =>
    .stopped id (((d.processes.lookup id).map fun p => wasRunning p.info.state).getD false)

/-- `Manager::delete`, and the spec file with it. -/
def deleteWithSpec (h : Host) (d : Daemon) (id : String) : Daemon × Except ManagerError Unit :=
  match d.delete h id with
  | (d, .error e) => (d, .error e)
  | (d, .ok _) => (d.deleteSpec h id, .ok ())

/-- `delete_handler`. -/
def deleteHandler (h : Host) (d : Daemon) (target : String) : Daemon × Except String Response :=
  d.idHandler h target deleteWithSpec (.done "deleted")

/-- The handlers that `register_id_verb` makes of `restart`, `reload` and `reset`. -/
def restartHandler (h : Host) (d : Daemon) (target : String) : Daemon × Except String Response :=
  d.idHandler h target restart (.done "restarted")

def reloadHandler (h : Host) (d : Daemon) (target : String) : Daemon × Except String Response :=
  d.idHandler h target reload (.done "reloaded")

def resetHandler (h : Host) (d : Daemon) (target : String) : Daemon × Except String Response :=
  d.idHandler h target (fun _ => reset) (.done "reset")

/-- `scale_handler`. -/
def scaleHandler (h : Host) (d : Daemon) (name ns : String) (target : ℤ) :
    Daemon × Except String Response :=
  if target < 0 then (d, .error "ERR_BAD_REQUEST: target count must be >= 0")
  else match d.scale h ns name target.toNat with
    | (d, .error e) => (d, .error e.toText)
    | (d, .ok r) => (d, .ok (.scaled r))

/-- What the daemon does with a request. -/
def handle (h : Host) (privileged : Bool) (d : Daemon) : Request → Daemon × Except String Response
  | .start identity s => d.startHandler h privileged identity s
  | .stop target => d.stopHandler h target
  | .delete target => d.deleteHandler h target
  | .restart target => d.restartHandler h target
  | .reload target => d.reloadHandler h target
  | .reset target => d.resetHandler h target
  | .scale name ns target => d.scaleHandler h name ns target

end Daemon

/-! ### Clients -/

/-- The commands of the CLI that change the state of the daemon. -/
inductive Client where
  | start (identity : Identity) (s : AppSpec)
  | apply (identity : Identity) (s : AppSpec)
  | stop (target : String)
  | delete (target : String)
  | restart (target : String)
  | reload (target : String)
  | reset (target : String)
  | scale (name ns : String) (target : ℤ)

namespace Daemon

/-- One instance of `unitpm start`: save, request, and the file removed again if the request
fails. -/
def clientStart (h : Host) (privileged : Bool) (d : Daemon) (identity : Identity) (s : AppSpec) :
    Daemon :=
  match d.specDir.saveSpec h s.id s with
  | (dir, .error _) => { d with specDir := dir }
  | (dir, .ok _) =>
      match startHandler h privileged { d with specDir := dir } identity s with
      | (d, .error _) => d.deleteSpec h s.id
      | (d, .ok _) => d

/-- One spec of `unitpm apply`: save and request; a failure is reported, the file stays. -/
def clientApply (h : Host) (privileged : Bool) (d : Daemon) (identity : Identity) (s : AppSpec) :
    Daemon :=
  match d.specDir.saveSpec h s.id s with
  | (dir, .error _) => { d with specDir := dir }
  | (dir, .ok _) => (startHandler h privileged { d with specDir := dir } identity s).1

/-- One command. -/
def client (privileged : Bool) (d : Daemon) (a : Host × Client) : Daemon :=
  match a.2 with
  | .start identity s => d.clientStart a.1 privileged identity s
  | .apply identity s => d.clientApply a.1 privileged identity s
  | .stop target => (d.handle a.1 privileged (.stop target)).1
  | .delete target => (d.handle a.1 privileged (.delete target)).1
  | .restart target => (d.handle a.1 privileged (.restart target)).1
  | .reload target => (d.handle a.1 privileged (.reload target)).1
  | .reset target => (d.handle a.1 privileged (.reset target)).1
  | .scale name ns target => (d.handle a.1 privileged (.scale name ns target)).1

end Daemon

/-! ### What the handlers do -/

variable {h : Host} {privileged : Bool} {d : Daemon} {identity : Identity} {s t : AppSpec}
  {target id : String}

theorem exists_of_isOk {ε α : Type} {x : Except ε α} (hx : x.isOk = true) : ∃ a, x = .ok a := by
  cases x with
  | error e => cases hx
  | ok a => exact ⟨a, rfl⟩

theorem resolveEnvFile_ok (hr : resolveEnvFile h identity s = .ok t) :
    ∃ f, t = { s with envFile := f } := by
  unfold resolveEnvFile at hr
  split at hr
  · exact ⟨s.envFile, (Except.ok.inj hr).symm⟩
  · split at hr
    · exact ⟨s.envFile, (Except.ok.inj hr).symm⟩
    · split at hr
      · cases hr
      · exact ⟨_, (Except.ok.inj hr).symm⟩

theorem resolveCwd_ok (hr : resolveCwd h s = .ok t) : ∃ c, t = { s with cwd := c } := by
  unfold resolveCwd at hr
  split at hr
  · exact ⟨s.cwd, (Except.ok.inj hr).symm⟩
  · split at hr
    · exact ⟨none, (Except.ok.inj hr).symm⟩
    · split at hr
      · cases hr
      · exact ⟨_, (Except.ok.inj hr).symm⟩

/-- A spec that gets past the gates is the one requested, but for its paths. -/
theorem admitRequest_ok (hr : admitRequest h privileged identity s = .ok t) :
    Accepted privileged s ∧ ∃ f c, t = { s with envFile := f, cwd := c } := by
  unfold admitRequest at hr
  split at hr
  · cases hr
  · rename_i hv
    split at hr
    · cases hr
    · rename_i ha
      split at hr
      · cases hr
      · rename_i u hu
        obtain ⟨f, rfl⟩ := resolveEnvFile_ok hu
        obtain ⟨c, rfl⟩ := resolveCwd_ok hr
        exact ⟨⟨hv, ha⟩, f, c, rfl⟩

namespace Daemon

/-- The request passes the gates, its paths resolve, and the manager can start what results. -/
def CanHandle (h : Host) (privileged : Bool) (d : Daemon) (identity : Identity) (s : AppSpec) :
    Prop :=
  s.id ≠ "" ∧ ∃ t, admitRequest h privileged identity s = .ok t ∧ d.CanStart h t

theorem startProcess_of_canStart (ht : admitRequest h privileged identity s = .ok t)
    (hc : d.CanStart h t) :
    ∃ info, d.startProcess h privileged identity s = ((d.startWithSpec h t).1, .ok info) := by
  obtain ⟨p, hp, he⟩ := hc
  unfold startProcess
  rw [ht]
  simp only [startWithSpec_of_canStart hp he]
  exact ⟨_, rfl⟩

theorem startProcess_of_not_canStart
    (hn : ∀ t, admitRequest h privileged identity s = .ok t → ¬ d.CanStart h t) :
    ∃ e, d.startProcess h privileged identity s = (d, .error e) := by
  unfold startProcess
  cases ht : admitRequest h privileged identity s with
  | error e => exact ⟨e, rfl⟩
  | ok t =>
      obtain ⟨e, he⟩ := startWithSpec_of_not_canStart (hn t ht)
      simp only [he]
      exact ⟨_, rfl⟩

theorem startHandler_of_canHandle (hid : s.id ≠ "")
    (ht : admitRequest h privileged identity s = .ok t) (hc : d.CanStart h t) :
    ∃ r, d.startHandler h privileged identity s = ((d.startWithSpec h t).1, .ok r) := by
  obtain ⟨info, hinfo⟩ := startProcess_of_canStart ht hc
  rw [startHandler, if_neg hid, hinfo]
  exact ⟨_, rfl⟩

theorem startHandler_of_not_canHandle (hn : ¬ d.CanHandle h privileged identity s) :
    ∃ e, d.startHandler h privileged identity s = (d, .error e) := by
  unfold startHandler
  by_cases hid : s.id = ""
  · rw [if_pos hid]
    exact ⟨_, rfl⟩
  · obtain ⟨e, he⟩ := startProcess_of_not_canStart fun t ht hc => hn ⟨hid, t, ht, hc⟩
    rw [if_neg hid, he]
    exact ⟨_, rfl⟩

/-- The rule for a request that names a process. -/
theorem idHandler_invariant (Inv : Daemon → Prop)
    {action : Host → Daemon → String → Daemon × Except ManagerError Unit}
    {answer : String → Response} (hd : Inv d)
    (hact : ∀ id, d.resolveId h target = .ok id → Inv (action h d id).1) :
    Inv (d.idHandler h target action answer).1 := by
  unfold idHandler
  cases hr : d.resolveId h target with
  | error e => exact hd
  | ok id =>
      have h1 := hact id hr
      simp only
      cases ha : action h d id with
      | mk d' r =>
          rw [ha] at h1
          cases r with
          | error e => exact h1
          | ok _ => exact h1

/-- The rule for `scale`, which is refused for a negative count. -/
theorem scaleHandler_invariant (Inv : Daemon → Prop) {name ns : String} {count : ℤ} (hd : Inv d)
    (hs : 0 ≤ count → Inv (d.scale h ns name count.toNat).1) :
    Inv (d.scaleHandler h name ns count).1 := by
  unfold scaleHandler
  split
  · exact hd
  · have h1 := hs (by omega)
    cases hr : d.scale h ns name count.toNat with
    | mk d' r =>
        rw [hr] at h1
        cases r with
        | error e => exact h1
        | ok _ => exact h1

/-- What the clients do where the save succeeds: a granted start is a start over the new file; if
it is refused, `unitpm start` removes the file again and `unitpm apply` does not. -/
theorem clientStart_of_saved (hw : h.Saves) (privileged : Bool) (d : Daemon) (identity : Identity)
    (s : AppSpec) :
    (∀ t, s.id ≠ "" → admitRequest h privileged identity s = .ok t → d.CanStart h t →
        d.clientStart h privileged identity s = ((d.saveWarn h s).startWithSpec h t).1 ∧
        d.clientApply h privileged identity s = ((d.saveWarn h s).startWithSpec h t).1) ∧
      (¬ d.CanHandle h privileged identity s →
        d.clientStart h privileged identity s = (d.saveWarn h s).deleteSpec h s.id ∧
        d.clientApply h privileged identity s = d.saveWarn h s) := by
  have hd : { d with specDir := (d.saveWarn h s).specDir } = d.saveWarn h s := rfl
  unfold clientStart clientApply
  rw [saveSpec_of_saves hw]
  simp only [hd]
  constructor
  · intro t hid ht hc
    obtain ⟨r, hr⟩ := startHandler_of_canHandle (d := d.saveWarn h s) hid ht hc
    rw [hr]
    exact ⟨rfl, rfl⟩
  · intro hn
    obtain ⟨e, he⟩ := startHandler_of_not_canHandle (d := d.saveWarn h s) hn
    rw [he]
    exact ⟨rfl, rfl⟩

end Daemon

end Unitpm
