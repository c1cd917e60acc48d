import Unitpm.Lib.Run
import Unitpm.Process
import Unitpm.SpecStore

/-! # The registry and its operations

`internal/daemon/manager/manager.rs`.  The state of the daemon is the registry together with
what its operations act on: the spec directory and the children.  Every operation is a function
of the machine it finds (`Host`) and of the state; it returns the new state and the result the
source returns.

`Op` and `Daemon.step` make of these functions the transition system whose runs the other
modules are about. -/

namespace Unitpm

open Rust.Str

/-- `ManagerError`. -/
inductive ManagerError where
  | alreadyExists (id : String)
  | processNotFound (id : String)
  | spawn (e : String)
  | restore (e : String)
  | noTemplate (base : String)
  | scale (e : String)
  | reload (e : String)
  | limits (e : String)
deriving DecidableEq

/-- `Display for ManagerError`. -/
def ManagerError.toText : ManagerError → String
  | alreadyExists s => "process with ID " ++ s ++ " already exists"
  | processNotFound s => "process not found: " ++ s
  | spawn s => "spawn: " ++ s
  | restore s => "failed to load specs: " ++ s
  | noTemplate s => "ERR_NOT_FOUND: no existing instance of " ++ debug s ++ " to use as template"
  | scale s => "scale: " ++ s
  | reload s => "reload: " ++ s
  | limits s => "ERR_LIMITS: " ++ s

/-! ### The registry -/

/-- The `processes` map: an entry is stored under its own id. -/
structure Registry where
  entries : AList fun _ : String => Process
  keyed : ∀ id p, entries.lookup id = some p → p.info.id = id

namespace Registry

def empty : Registry where
  entries := ∅
  keyed := by intro id p h; rw [AList.lookup_empty] at h; cases h

def lookup (r : Registry) (id : String) : Option Process := r.entries.lookup id

def size (r : Registry) : ℕ := r.entries.keys.length

/-- `processes.insert(id, p)`. -/
def insert (r : Registry) (p : Process) : Registry where
  entries := r.entries.insert p.info.id p
  keyed := by
    intro id q h
    by_cases hk : id = p.info.id
    · subst hk
      rw [AList.lookup_insert] at h
      rw [Option.some.inj h]
    · rw [AList.lookup_insert_ne hk] at h
      exact r.keyed id q h

/-- `processes.remove(id)`. -/
def erase (r : Registry) (id : String) : Registry where
  entries := r.entries.erase id
  keyed := by
    intro k q h
    by_cases hk : k = id
    · subst hk
      rw [AList.lookup_erase] at h
      cases h
    · rw [AList.lookup_erase_ne hk] at h
      exact r.keyed k q h

theorem info_id {r : Registry} {id : String} {p : Process} (h : r.lookup id = some p) :
    p.info.id = id := r.keyed id p h

theorem spec_id {r : Registry} {id : String} {p : Process} (h : r.lookup id = some p) :
    p.spec.id = id := p.id_eq.symm.trans (r.keyed id p h)

@[simp] theorem lookup_empty (id : String) : empty.lookup id = none := AList.lookup_empty id

theorem lookup_insert (r : Registry) (p : Process) :
    (r.insert p).lookup = Function.update r.lookup p.info.id (some p) := by
  funext id
  unfold lookup insert
  by_cases hk : id = p.info.id
  · rw [hk, AList.lookup_insert, Function.update_self]
  · rw [AList.lookup_insert_ne hk, Function.update_of_ne hk]

theorem lookup_erase (r : Registry) (id : String) :
    (r.erase id).lookup = Function.update r.lookup id none := by
  funext k
  unfold lookup erase
  by_cases hk : k = id
  · rw [hk, AList.lookup_erase, Function.update_self]
  · rw [AList.lookup_erase_ne hk, Function.update_of_ne hk]

end Registry

/-- The daemon: registry, limits, spec directory, children. -/
structure Daemon where
  processes : Registry := .empty
  maxProcesses : ℕ := 0
  maxProcessesErr : Option String := none
  specDir : SpecDir := ∅
  os : Os := {}

namespace Daemon

/-- `save_spec_protocol(&s.id, &s)`, a failure being only reported. -/
def saveWarn (h : Host) (d : Daemon) (s : AppSpec) : Daemon :=
  { d with specDir := (d.specDir.saveSpec h s.id s).1 }

/-- `delete_spec_protocol(id)`, a failure being ignored. -/
def deleteSpec (h : Host) (d : Daemon) (id : String) : Daemon :=
  { d with specDir := (d.specDir.deleteSpec h id).1 }

/-- A process of the registry has changed, and the children with it. -/
def put (d : Daemon) (os : Os) (p : Process) : Daemon :=
  { d with os := os, processes := d.processes.insert p }

def remove (d : Daemon) (id : String) : Daemon := { d with processes := d.processes.erase id }

/-! ### Starting -/

/-- `Manager::add_stopped_spec`. -/
def addStoppedSpec (h : Host) (d : Daemon) (s : AppSpec) : Daemon × Except ManagerError Unit :=
  match Process.new h s with
  | .error e => (d, .error (.spawn e.toText))
  | .ok p => (d.put d.os { p with noAutoRestart := true, stoppedByUser := true }, .ok ())

/-- The checks of `start_with_spec` before it starts anything. -/
def admission (h : Host) (d : Daemon) (s : AppSpec) : Except ManagerError Process :=
  match d.maxProcessesErr with
  | some e => .error (.limits e)
  | none =>
      if d.maxProcesses > 0 ∧ d.processes.size ≥ d.maxProcesses then
        .error (.limits "max processes reached")
      else if (d.processes.lookup s.id).isSome then .error (.alreadyExists s.id)
      else match Process.new h s with
        | .error e => .error (.spawn e.toText)
        | .ok p => .ok p

/-- `Manager::start_with_spec`. -/
def startWithSpec (h : Host) (d : Daemon) (s : AppSpec) :
    Daemon × Except ManagerError ProcessInfo :=
  match d.admission h s with
  | .error e => (d, .error e)
  | .ok p =>
      match p.startProcess h d.os with
      | .error e => (d, .error (.spawn e))
      | .ok (os, p) =>
          let d := if s.disabled then d.saveWarn h { s with disabled := false } else d
          (d.put os p, .ok p.info)

/-- One iteration of the loop of `restore`. -/
def restoreSpec (h : Host) (d : Daemon) (s : AppSpec) : Daemon :=
  if s.disabled then (d.addStoppedSpec h s).1 else (d.startWithSpec h s).1

/-- `Manager::restore`. -/
def restore (h : Host) (d : Daemon) : Daemon × Except ManagerError Unit :=
  match d.specDir.loadAll h with
  | .error e => (d, .error (.restore e))
  | .ok specs => (specs.foldl (restoreSpec h) d, .ok ())

/-! ### Stopping -/

/-- `Manager::stop`. -/
def stop (h : Host) (d : Daemon) (id : String) : Daemon × Except ManagerError Unit :=
  match d.processes.lookup id with
  | none => (d, .error (.processNotFound id))
  | some p =>
      let (os, p) := p.stop h d.os true
      ((d.put os p).saveWarn h { p.spec with disabled := true }, .ok ())

/-- `Manager::delete`. -/
def delete (h : Host) (d : Daemon) (id : String) : Daemon × Except ManagerError Unit :=
  let d := (d.stop h id).1
  match d.processes.lookup id with
  | none => (d, .error (.processNotFound id))
  | some _ => (d.remove id, .ok ())

/-- One iteration of the loop of `shutdown`. -/
def shutdownProcess (h : Host) (d : Daemon) (id : String) : Daemon :=
  match d.processes.lookup id with
  | none => d
  | some p =>
      let (os, p) := p.stop h d.os false
      d.put os p

/-- `Manager::shutdown`. -/
def shutdown (h : Host) (d : Daemon) : Daemon :=
  (h.hashOrder d.processes.entries.keys).foldl (shutdownProcess h) d

/-! ### Restarting -/

/-- `Manager::restart`. -/
def restart (h : Host) (d : Daemon) (id : String) : Daemon × Except ManagerError Unit :=
  match d.processes.lookup id with
  | none => (d, .error (.processNotFound id))
  | some p =>
      match p.resetBackoff.restart h d.os with
      | (os, p, .error e) => (d.put os p, .error (.spawn e))
      | (os, p, .ok _) =>
          if p.spec.disabled then ((d.put os p.enabled).saveWarn h p.enabled.spec, .ok ())
          else (d.put os p, .ok ())

/-- `Manager::reset`. -/
def reset (d : Daemon) (id : String) : Daemon × Except ManagerError Unit :=
  match d.processes.lookup id with
  | none => (d, .error (.processNotFound id))
  | some p => (d.put d.os { p with info := { p.info with restarts := 0 } }, .ok ())

/-- The spec `reload` starts: the stored one, enabled. -/
def reloadedSpec (s : AppSpec) : AppSpec := { s.withNamespace with disabled := false }

/-- `reload` up to its start: the spec is saved, the old process stopped and its entry dropped. -/
def dropForReload (h : Host) (d : Daemon) (id : String) (s : AppSpec) : Daemon :=
  (((d.saveWarn h s).stop h id).1).remove id

/-- `Manager::reload`. -/
def reload (h : Host) (d : Daemon) (id : String) : Daemon × Except ManagerError Unit :=
  match d.specDir.loadSpec h id with
  | .error e => (d, .error (.reload e))
  | .ok s =>
      let s := reloadedSpec s
      match (d.dropForReload h id s).startWithSpec h s with
      | (d, .error e) => (d, .error (.reload e.toText))
      | (d, .ok _) => (d, .ok ())

/-! ### Scaling -/

/-- `format!("{base}-{n}")`. -/
def instanceName (base : String) (n : ℕ) : String := base ++ "-" ++ toString n

/-- Whether a name is `base-k` with `k` a `u32`. -/
def isInstanceName (base name : String) : Bool :=
  match stripPrefix? (base ++ "-") name with
  | some rest => (parseUnsigned (2 ^ 32 - 1) rest.toList).isSome
  | none => false

/-- Names and ids of the matching processes; `base` itself goes to the front. -/
structure ScaleSnapshot where
  members : List (String × String)
  template : Option AppSpec

/-- The body of the loop of `scale_snapshot`. -/
def addMember (ns base : String) (acc : List (String × String)) (e : String × Process) :
    List (String × String) :=
  if e.2.info.ns ≠ ns then acc
  else if e.2.info.name = base then (e.2.info.name, e.1) :: acc
  else if isInstanceName base e.2.info.name then acc ++ [(e.2.info.name, e.1)]
  else acc

/-- `Manager::scale_snapshot`. -/
def scaleSnapshot (h : Host) (d : Daemon) (ns base : String) : ScaleSnapshot :=
  let members := (h.iter d.processes.entries).foldl (addMember ns base) []
  { members := members
    template := members.head?.bind fun m => (d.processes.lookup m.2).map Process.spec }

/-- The inner loop of the scale-up branch: the first index from `next` on whose name is free.
At most `taken.length` names are taken, which is the fuel. -/
def freeIndex (taken : List String) (base : String) : ℕ → ℕ → ℕ
  | 0, next => next
  | fuel + 1, next =>
      if instanceName base next ∈ taken then freeIndex taken base fuel (next + 1) else next

/-- The names the scale-up branch gives to its `count` new instances. -/
def newNames (base : String) : ℕ → List String → ℕ → List String
  | 0, _, _ => []
  | count + 1, taken, next =>
      let i := freeIndex taken base taken.length next
      instanceName base i :: newNames base count (instanceName base i :: taken) (i + 1)

/-- The copy of the template that becomes a new instance. -/
def instanceSpec (template : AppSpec) (id name ns : String) : AppSpec :=
  { template with
    id := id
    name := name
    ns := some ns
    env := some (template.env.getD .empty) }

/-- The body of the loop of the scale-up branch, from the save on. -/
def createInstance (h : Host) (d : Daemon) (s : AppSpec) : Daemon × Except ManagerError Unit :=
  match d.specDir.saveSpec h s.id s with
  | (dir, .error e) => ({ d with specDir := dir }, .error (.scale e))
  | (dir, .ok _) =>
      match startWithSpec h { d with specDir := dir } s with
      | (d, .error e) => (d.deleteSpec h s.id, .error (.scale e.toText))
      | (d, .ok _) => (d, .ok ())

/-- The loop of the scale-up branch: the `i`-th name goes with the `i`-th new id. -/
def createInstances (h : Host) (template : AppSpec) (ns : String) (d : Daemon)
    (names : List String) : Daemon × Except ManagerError Unit :=
  Run.untilError (fun d n => d.createInstance h (instanceSpec template (h.newId n.2) n.1 ns)) d
    names.zipIdx

/-- The body of the loop of the scale-down branch. -/
def deleteInstance (h : Host) (d : Daemon) (id : String) : Daemon × Except ManagerError Unit :=
  match d.delete h id with
  | (d, .error e) => (d, .error (.scale e.toText))
  | (d, .ok _) => (d, .ok ())

/-- The loop of the scale-down branch. -/
def deleteAll (h : Host) (d : Daemon) (ids : List String) : Daemon × Except ManagerError Unit :=
  Run.untilError (deleteInstance h) d ids

structure ScaleResponse where
  baseName : String
  ns : String
  before : ℕ
  after : ℕ
  created : Option (List String) := none
  deleted : Option (List String) := none
deriving DecidableEq

/-- The namespace `scale` looks in. -/
def scaleNs (ns : String) : String := if ns = "" then defaultNamespace else ns

/-- `Manager::scale`. -/
def scale (h : Host) (d : Daemon) (ns base : String) (target : ℕ) :
    Daemon × Except ManagerError ScaleResponse :=
  if target > 1024 then (d, .error (.limits "target count must be <= 1024"))
  else
    let ns := scaleNs ns
    let snap := d.scaleSnapshot h ns base
    let n := snap.members.length
    let res : ScaleResponse := { baseName := base, ns := ns, before := n, after := target }
    if target = n then (d, .ok res)
    else if target < n then
      let gone := snap.members.drop target
      match d.deleteAll h (gone.map Prod.snd).reverse with
      | (d, .error e) => (d, .error e)
      | (d, .ok _) => (d, .ok { res with deleted := some (gone.map Prod.fst) })
    else match snap.template with
      | none => (d, .error (.noTemplate base))
      | some template =>
          let names := newNames base (target - n) (snap.members.map Prod.fst) 1
          match createInstances h template ns d names with
          | (d, .error e) => (d, .error e)
          | (d, .ok _) => (d, .ok { res with created := some names })

/-! ### Selectors -/

/-- `resolve_from_candidates`. -/
def resolveFromCandidates (identifier : String) : List String → Except ManagerError String
  | [] => .error (.processNotFound (identifier ++ " (run 'unitpm list' to see all processes)"))
  | [id] => .ok id
  | candidates =>
      .error (.processNotFound ("ambiguous selector '" ++ identifier ++ "': matches " ++
        toString candidates.length ++ " processes [" ++
        ", ".intercalate (candidates.map debug) ++ "]"))

/-- The ids whose process satisfies `f`, in the host's order. -/
def idsWhere (h : Host) (d : Daemon) (f : String → Process → Bool) : List String :=
  ((h.iter d.processes.entries).filter fun e => f e.1 e.2).map Prod.fst

/-- `Manager::resolve_id`. -/
def resolveId (h : Host) (d : Daemon) (identifier : String) : Except ManagerError String :=
  match splitOnceAt ':' identifier with
  | some (ns, name) =>
      resolveFromCandidates identifier
        (d.idsWhere h fun _ p => p.info.ns == ns && p.info.name == name)
  | none =>
      if (d.processes.lookup identifier).isSome then .ok identifier
      else
        let byPrefix := d.idsWhere h fun id _ => startsWith identifier id
        if byPrefix ≠ [] then resolveFromCandidates identifier byPrefix
        else resolveFromCandidates identifier (d.idsWhere h fun _ p => p.info.name == identifier)

/-- `Manager::list`: the `Process::info` of every entry.  What `info` refreshes (uptime, CPU,
memory) is not kept here. -/
def list (h : Host) (d : Daemon) : List ProcessInfo :=
  (h.iter d.processes.entries).map fun e => e.2.info

end Daemon

/-! ### Runs -/

/-- The operations of the manager. -/
inductive Op where
  | startWithSpec (s : AppSpec)
  | addStoppedSpec (s : AppSpec)
  | restore
  | stop (id : String)
  | delete (id : String)
  | restart (id : String)
  | reset (id : String)
  | reload (id : String)
  | scale (ns base : String) (target : ℕ)
  | shutdown

/-- One operation on the machine it finds. -/
def Daemon.step (d : Daemon) (a : Host × Op) : Daemon :=
  match a.2 with
  | .startWithSpec s => (d.startWithSpec a.1 s).1
  | .addStoppedSpec s => (d.addStoppedSpec a.1 s).1
  | .restore => (d.restore a.1).1
  | .stop id => (d.stop a.1 id).1
  | .delete id => (d.delete a.1 id).1
  | .restart id => (d.restart a.1 id).1
  | .reset id => (d.reset id).1
  | .reload id => (d.reload a.1 id).1
  | .scale ns base target => (d.scale a.1 ns base target).1
  | .shutdown => d.shutdown a.1

/-- A manager that has just been created, over whatever is in the spec directory. -/
def Daemon.fresh (maxProcesses : ℕ) (maxProcessesErr : Option String) (dir : SpecDir) : Daemon where
  maxProcesses := maxProcesses
  maxProcessesErr := maxProcessesErr
  specDir := dir

end Unitpm
