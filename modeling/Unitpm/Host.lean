import Unitpm.Lib.Overlay
import Unitpm.Lib.Path
import Unitpm.Protocol

/-! # The machine the daemon runs on

Everything the daemon asks of the operating system and of the libraries it links, as one
record of functions: its own environment, what paths are, whether `Uuid::parse_str` accepts a
string, whether a spawn fails.  A `Host` describes the machine during one operation of the
daemon; another operation may find another `Host`, so a theorem about a run quantifies over
one for every step.

`hashOrder` and `dirOrder` are the orders in which a `HashMap` and a directory happen to be
read; `newPid` is the pid the kernel gives to the next child, and `newId i` the `i`-th UUID
generated during the operation. -/

namespace Unitpm

open Rust.Path (OsStr)

/-- The environment of the daemon process.  A name is not empty and has no `=` after its
first character, which is how `std::env::vars` splits an entry. -/
structure DaemonEnv where
  vars : List (String × String)
  nodup : (vars.map Prod.fst).Nodup
  names : ∀ p ∈ vars, p.1 ≠ "" ∧ '=' ∉ p.1.toList.tail

/-- `std::env::var`. -/
def DaemonEnv.var (e : DaemonEnv) (k : String) : Option String := Overlay.lastVal e.vars k

/-- What an open file descriptor leads to: a file, or something else by its name. -/
inductive Stream where
  | file (path : OsStr)
  | device (name : String)
deriving DecidableEq

/-- `std::process::Stdio`. -/
inductive Stdio where
  | inherit
  | given (s : Stream)
deriving DecidableEq

/-- `std::process::Command` as the daemon fills it in: `envs` are the `env` calls in order and
`setpgid` stands for the `pre_exec` hook that makes the child a group leader. -/
structure Command where
  program : String
  args : List String := []
  currentDir : Option String := none
  envs : List (String × String) := []
  envClear : Bool := false
  setpgid : Bool := false
  stdout : Stdio := .inherit
  stderr : Stdio := .inherit
deriving DecidableEq

namespace Command

/-- The argument vector the child is started with. -/
def argv (c : Command) : List String := c.program :: c.args

/-- The child's environment: the parent's, unless `env_clear` was called, under the pairs set
with `env`. -/
def childEnv (c : Command) (e : DaemonEnv) : String → Option String :=
  Overlay.overlay (if c.envClear then fun _ => none else e.var) c.envs

end Command

/-- `std::fs::Metadata`. -/
structure Metadata where
  isFile : Bool
  isDir : Bool
  uid : ℕ

/-- Outcome of `fs::write`.  A torn write has truncated the file and not finished. -/
inductive WriteResult where
  | done
  | failed (e : String)
  | torn (e : String)
deriving DecidableEq

/-- Answers of the operating system and of the linked libraries during one operation. -/
structure Host where
  /-- `paths::is_system_mode()`. -/
  systemMode : Bool
  /-- The daemon's own environment. -/
  env : DaemonEnv
  hashOrder : List String → List String
  hashOrder_perm : ∀ l, (hashOrder l).Perm l
  dirOrder : List String → List String
  dirOrder_perm : ∀ l, (dirOrder l).Perm l
  isDir : String → Bool
  isFile : String → Bool
  pathExists : String → Bool
  canonicalize : OsStr → Option OsStr
  metadata : OsStr → Option Metadata
  /-- `File::open(path).is_ok()`. -/
  canOpen : OsStr → Bool
  readToString : String → Except String String
  createDirAll : String → Except String Unit
  write : String → String → Except String Unit
  /-- `current_exe()` and its parent directory. -/
  exeParent : Except String (Option String)
  /-- `Uuid::parse_str(id).is_ok()`. -/
  uuidOk : String → Bool
  /-- The error of `Command::spawn`, if it fails. -/
  spawnErr : Command → Option String
  /-- Whether a child ends within its grace period after the stop signal. -/
  obeysSignal : ℕ → Bool
  newPid : List ℕ → ℕ
  newPid_pos : ∀ l, 0 < newPid l
  newPid_not_mem : ∀ l, newPid l ∉ l
  newId : ℕ → String
  /-- `save_spec_protocol` of a spec under an id. -/
  specWrite : String → AppSpec → WriteResult
  /-- The error of reading the spec file of an id, if there is one. -/
  specReadErr : String → Option String
  /-- What `serde_json` says of the content of a spec file that is no spec. -/
  specJsonErr : String → String
  /-- The error of removing it. -/
  specRemoveErr : String → Option String
  /-- The error of listing the spec directory. -/
  specDirErr : Option String
  /-- Unix time in seconds. -/
  now : ℕ

/-- The same machine with another daemon environment. -/
def Host.withEnv (h : Host) (e : DaemonEnv) : Host := { h with env := e }

/-- Reading a `HashMap` in the host's order. -/
def Host.iter {β : Type} (h : Host) (m : AList fun _ : String => β) : List (String × β) :=
  (h.hashOrder m.keys).filterMap fun k => (m.lookup k).map fun v => (k, v)

theorem Host.mem_iter {β : Type} (h : Host) (m : AList fun _ : String => β) {k : String} {v : β} :
    (k, v) ∈ h.iter m ↔ m.lookup k = some v := by
  unfold Host.iter
  rw [List.mem_filterMap]
  constructor
  · rintro ⟨k', _, hk⟩
    obtain ⟨w, hw, he⟩ := Option.map_eq_some_iff.mp hk
    obtain ⟨rfl, rfl⟩ := Prod.mk.inj he
    exact hw
  · intro hv
    have hk : k ∈ m.keys := AList.mem_keys.mp (AList.lookup_isSome.mp (by rw [hv]; rfl))
    exact ⟨k, (h.hashOrder_perm _).mem_iff.mpr hk, by rw [hv]; rfl⟩

theorem Host.nodup_keys_iter {β : Type} (h : Host) (m : AList fun _ : String => β) :
    ((h.iter m).map Prod.fst).Nodup := by
  unfold Host.iter
  rw [List.map_filterMap]
  refine List.Nodup.filterMap (fun k k' i hi hi' => ?_)
    ((h.hashOrder_perm _).nodup_iff.mpr m.keys_nodup)
  simp only [Option.map_map, Option.mem_def, Option.map_eq_some_iff] at hi hi'
  obtain ⟨v, -, rfl⟩ := hi
  obtain ⟨v', -, rfl⟩ := hi'
  rfl

/-! ### A machine for concrete runs -/

/-- The hyphenated form of a UUID, the one `Uuid::to_string` prints. -/
def hyphenatedUuid (id : String) : Bool :=
  let hyphens := [8, 13, 18, 23]
  id.toList.length == 36 && id.toList.zipIdx.all fun p =>
    if hyphens.contains p.2 then p.1 == '-'
    else p.1.isDigit || ('a' ≤ p.1 && p.1 ≤ 'f') || ('A' ≤ p.1 && p.1 ≤ 'F')

/-- A UUID v7. -/
def demoId : String := "0190b5a0-0000-7000-8000-000000000001"

/-- A plain command to run under the id. -/
def plainSpec (id : String) : AppSpec where
  id := id
  name := "api"
  exec := { kind := "command", command := some "sleep", args := some ["30"] }

/-- A daemon environment with nothing but a `PATH`. -/
def cleanEnv : DaemonEnv where
  vars := [("PATH", "/usr/bin")]
  nodup := by decide
  names := by decide

theorem le_foldr_max {l : List ℕ} {n : ℕ} (h : n ∈ l) : n ≤ l.foldr max 0 := by
  induction l with
  | nil => cases h
  | cons m l ih =>
      rcases List.mem_cons.mp h with rfl | h
      · exact le_max_left _ _
      · exact (ih h).trans (le_max_right _ _)

/-- A machine on which every call succeeds: the only directory is `/srv`, the only file the
`unitpm` binary, and every child obeys its stop signal. -/
def plainHost (systemMode : Bool) (env : DaemonEnv) : Host where
  systemMode := systemMode
  env := env
  hashOrder := id
  hashOrder_perm := List.Perm.refl
  dirOrder := id
  dirOrder_perm := List.Perm.refl
  isDir p := p == "/srv"
  isFile p := p == "/usr/bin/unitpm"
  pathExists p := p == "/srv" || p == "/usr/bin/unitpm"
  canonicalize p := if p = OsStr.ofString "/srv" then some p else none
  metadata p := if p = OsStr.ofString "/srv" then some ⟨false, true, 0⟩ else none
  canOpen p := p = OsStr.ofString "/srv"
  readToString _ := .error "No such file or directory (os error 2)"
  createDirAll _ := .ok ()
  write _ _ := .ok ()
  exeParent := .ok (some "/usr/bin")
  uuidOk := hyphenatedUuid
  spawnErr _ := none
  obeysSignal _ := true
  newPid l := l.foldr max 0 + 1
  newPid_pos _ := Nat.succ_pos _
  newPid_not_mem l h := absurd (le_foldr_max h) (by omega)
  newId i := "0190b5a0-0000-7000-8000-0000000001" ++ toString (10 + i % 90)
  specWrite _ _ := .done
  specReadErr _ := none
  specJsonErr _ := "EOF while parsing a value at line 1 column 0"
  specRemoveErr _ := none
  specDirErr := none
  now := 0

/-- The same for a daemon of an ordinary user. -/
def userHost : Host := plainHost false cleanEnv

end Unitpm
