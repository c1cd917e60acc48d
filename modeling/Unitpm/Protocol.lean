import Mathlib.Data.List.Sort
import Mathlib.Data.String.Basic
import Mathlib.Tactic.Common

/-! # Application specifications

The wire types of `internal/ipc/protocol` that the daemon reads: `AppSpec` and its sections,
and `ProcessInfo` / `ProcessState` of `internal/types`.  `Box` is transparent, `i32` and `i64`
are `ℤ`, and a `BTreeMap<String, String>` is a list of pairs with strictly increasing keys
(`BTreeMap`).  The field `namespace` is `ns`, the name its local copies have in the source. -/

namespace Unitpm

/-- `BTreeMap<String, String>`: iteration is in key order, and a key occurs once. -/
structure BTreeMap where
  entries : List (String × String)
  sorted : (entries.map Prod.fst).Pairwise (· < ·)
deriving DecidableEq

namespace BTreeMap

def empty : BTreeMap := ⟨[], List.Pairwise.nil⟩

end BTreeMap

structure AppExec where
  kind : String
  command : Option String := none
  args : Option (List String) := none
  entry : Option String := none
  runtime : Option String := none
  shell : Bool := false
deriving DecidableEq

structure AppLogs where
  mode : String
  dir : Option String := none
  stdout : Option String := none
  stderr : Option String := none
  format : Option String := none
  timestamp : Option String := none
deriving DecidableEq

structure AppRestart where
  policy : String
  maxRetries : Option ℤ := none
  backoffMs : Option ℤ := none
  backoffType : Option String := none
  stopOnExit : Option (List ℤ) := none
deriving DecidableEq

structure RunAsPolicy where
  mode : String
deriving DecidableEq

structure AppStop where
  signal : Option String := none
  timeoutMs : Option ℤ := none
deriving DecidableEq

structure AppResources where
  memoryMaxBytes : Option ℤ := none
  cpuMaxPercent : Option ℤ := none
  tasksMax : Option ℤ := none
deriving DecidableEq

structure AppWatch where
  enabled : Bool
  ignore : Option (List String) := none
deriving DecidableEq

/-- Full specification of an application to be run. -/
structure AppSpec where
  version : ℤ := 1
  id : String
  name : String
  ns : Option String := none
  exec : AppExec
  cwd : Option String := none
  env : Option BTreeMap := none
  envFile : Option String := none
  logs : Option AppLogs := none
  restart : Option AppRestart := none
  cron : Option String := none
  runAs : Option RunAsPolicy := none
  stop : Option AppStop := none
  resources : Option AppResources := none
  watch : Option AppWatch := none
  createdAt : Option String := none
  disabled : Bool := false
deriving DecidableEq

/-- `option.as_deref().unwrap_or("")`. -/
def orEmpty (o : Option String) : String := o.getD ""

/-- `DEFAULT_NAMESPACE`. -/
def defaultNamespace : String := "default"

/-- The namespace rule of `load_spec_protocol` and `reload`: absent or empty becomes `default`. -/
def AppSpec.withNamespace (s : AppSpec) : AppSpec :=
  { s with ns := if orEmpty s.ns = "" then some defaultNamespace else s.ns }

/-- The isolation mode `prepare_cmd` and `plan_isolation` switch on (`self` when absent). -/
def AppSpec.runAsMode (s : AppSpec) : String :=
  match s.runAs with
  | some r => r.mode
  | none => "self"

@[simp] theorem AppSpec.withNamespace_id (s : AppSpec) : s.withNamespace.id = s.id := rfl

@[simp] theorem AppSpec.withNamespace_disabled (s : AppSpec) :
    s.withNamespace.disabled = s.disabled := rfl

@[simp] theorem AppSpec.withNamespace_withNamespace (s : AppSpec) :
    s.withNamespace.withNamespace = s.withNamespace := by
  have hd : orEmpty (some defaultNamespace) ≠ "" := by decide
  by_cases h : orEmpty s.ns = ""
  · simp only [withNamespace, h, if_true, hd, if_false]
  · simp [withNamespace, h]

/-- State a managed process can be in. -/
inductive ProcessState where
  | running | online | stopped | failed | exited | restarting
deriving DecidableEq, Repr

/-- The part of `ProcessInfo` that the lifecycle reads and writes. -/
structure ProcessInfo where
  id : String
  name : String
  ns : String
  pid : ℕ := 0
  restarts : ℤ := 0
  state : ProcessState := .stopped
  watch : Bool := false
  createdAt : Option String := none
deriving DecidableEq

end Unitpm
