import Unitpm.Lib.Json
import Unitpm.Spawn

/-! # The sandbox wrapper's configuration

Two ends of one message.  `wrap_sandbox` (`internal/daemon/runtime/sandbox.rs`) writes a JSON
object into `UNITPM_SANDBOX_CONFIG`; the `_exec-sandbox` command
(`internal/cli/commands/execsandbox`) decodes it as its `Config`.  The writer leaves out an
empty log directory and an empty allow list, and the reader has a default for every field.

The reader's `Deserialize` impls of `PathAccess` and `Limits` take any value and return a
blank one, so `limits` and the contents of `allow` never arrive
(`decode_sandboxConfigJson`). -/

namespace Unitpm

open Overlay

/-! ### Data -/

/-- `landlock::PathAccess`. -/
structure PathAccess where
  path : String := ""
  read : Bool := false
  write : Bool := false
  execute : Bool := false
deriving DecidableEq

/-- `rlimit::Limits`; zero leaves a limit alone. -/
structure Limits where
  memoryBytes : UInt64 := 0
  cpuSeconds : UInt64 := 0
  maxProcs : UInt64 := 0
  maxFiles : UInt64 := 0
deriving DecidableEq

structure SandboxOptions where
  binary : String := ""
  cwd : String := ""
  logDir : String := ""
  limits : Limits := {}
  allow : List PathAccess := []
deriving DecidableEq

/-- The command to be wrapped, without its streams. -/
structure CommandLike where
  path : String := ""
  args : List String := []
  env : List String := []
deriving DecidableEq

structure IdMapping where
  containerId : UInt32
  hostId : UInt32
  size : UInt32
deriving DecidableEq

structure SysProcAttr where
  cloneFlags : UInt32
  gidMappingsEnableSetgroups : Bool
  setPgid : Bool
  uidMappings : List IdMapping
  gidMappings : List IdMapping
deriving DecidableEq

structure WrappedCommand where
  binary : String
  args : List String
  env : List String
  sysProcAttr : SysProcAttr
deriving DecidableEq

inductive SandboxError where
  | binaryNotSet
  | serialize (e : String)
deriving DecidableEq

/-- `Display for SandboxError`. -/
def SandboxError.toText : SandboxError → String
  | binaryNotSet => "sandbox: binary not set"
  | serialize e => "sandbox serialize: " ++ e

def wrapperSubcommand : String := "_exec-sandbox"

def configEnvVar : String := "UNITPM_SANDBOX_CONFIG"

/-! ### The writer -/

def PathAccess.toJson (a : PathAccess) : Json :=
  .obj [("Path", .str a.path), ("Read", .bool a.read), ("Write", .bool a.write),
    ("Execute", .bool a.execute)]

def Limits.toJson (l : Limits) : Json :=
  .obj [("MemoryBytes", .num l.memoryBytes.toNat), ("CPUSeconds", .num l.cpuSeconds.toNat),
    ("MaxProcs", .num l.maxProcs.toNat), ("MaxFiles", .num l.maxFiles.toNat)]

/-- `SandboxConfigJson`. -/
def sandboxConfigJson (cmd : CommandLike) (opts : SandboxOptions) : Json :=
  .obj ([("cwd", .str opts.cwd)] ++
    (if opts.logDir = "" then [] else [("log_dir", .str opts.logDir)]) ++
    (if opts.allow = [] then [] else [("allow", .arr (opts.allow.map PathAccess.toJson))]) ++
    [("limits", opts.limits.toJson), ("command", .str cmd.path),
      ("args", .arr (cmd.args.map .str))])

/-- `CLONE_NEWUSER | CLONE_NEWPID | CLONE_NEWNS`. -/
def sandboxCloneFlags : UInt32 := 0x10000000 ||| 0x20000000 ||| 0x00020000

/-- `wrap_sandbox`, run by the user `uid` of the group `gid`. -/
def wrapSandbox (codec : Json.Codec) (uid gid : UInt32) (cmd : CommandLike)
    (opts : SandboxOptions) : Except SandboxError WrappedCommand :=
  if opts.binary = "" then .error .binaryNotSet
  else
    let payload := codec.toText (sandboxConfigJson cmd opts)
    .ok
      { binary := opts.binary
        args := [opts.binary, wrapperSubcommand]
        env := cmd.env ++ [envEntry (configEnvVar, payload)]
        sysProcAttr :=
          { cloneFlags := sandboxCloneFlags
            gidMappingsEnableSetgroups := false
            setPgid := true
            uidMappings := [⟨0, uid, 1⟩]
            gidMappings := [⟨0, gid, 1⟩] } }

/-! ### The reader -/

/-- `execsandbox::Config`. -/
structure Config where
  cwd : String := ""
  logDir : String := ""
  allow : List PathAccess := []
  limits : Limits := {}
  command : String := ""
  args : List String := []
deriving DecidableEq

inductive ConfigField where
  | cwd | logDir | allow | limits | command | args
deriving DecidableEq

/-- The fields in the order of the struct. -/
def configFields : List ConfigField := [.cwd, .logDir, .allow, .limits, .command, .args]

def ConfigField.ofName (k : String) : Option ConfigField :=
  if k = "cwd" then some .cwd
  else if k = "log_dir" then some .logDir
  else if k = "allow" then some .allow
  else if k = "limits" then some .limits
  else if k = "command" then some .command
  else if k = "args" then some .args
  else none

def decodeString : Json → Option String
  | .str s => some s
  | _ => none

def decodeVec {α : Type} (item : Json → Option α) : Json → Option (List α)
  | .arr l => l.mapM item
  | _ => none

/-- `Deserialize for PathAccess`: the value is ignored. -/
def decodePathAccess (_ : Json) : Option PathAccess := some {}

/-- `Deserialize for Limits`: the value is ignored. -/
def decodeLimits (_ : Json) : Option Limits := some {}

/-- Decodes the value of one field into the configuration. -/
def Config.set (c : Config) (f : ConfigField) (j : Json) : Option Config :=
  match f with
  | .cwd => (decodeString j).map fun s => { c with cwd := s }
  | .logDir => (decodeString j).map fun s => { c with logDir := s }
  | .allow => (decodeVec decodePathAccess j).map fun a => { c with allow := a }
  | .limits => (decodeLimits j).map fun l => { c with limits := l }
  | .command => (decodeString j).map fun s => { c with command := s }
  | .args => (decodeVec decodeString j).map fun a => { c with args := a }

/-- The derived `visit_map`: unknown members are skipped and a second member for a field is an
error. -/
def Config.decodeMembers : List ConfigField → Config → List (String × Json) → Option Config
  | _, c, [] => some c
  | seen, c, (k, j) :: l =>
      match ConfigField.ofName k with
      | none => decodeMembers seen c l
      | some f =>
          if f ∈ seen then none
          else (c.set f j).bind fun c => decodeMembers (f :: seen) c l

/-- The derived `visit_seq`: the fields by position, missing ones keep their default. -/
def Config.decodeItems : List ConfigField → Config → List Json → Option Config
  | _, c, [] => some c
  | [], _, _ :: _ => none
  | f :: fs, c, j :: l => (c.set f j).bind fun c => decodeItems fs c l

def Config.decode : Json → Option Config
  | .obj l => decodeMembers [] {} l
  | .arr l => decodeItems configFields {} l
  | _ => none

/-- `serde_json::from_str::<Config>`. -/
def Config.fromStr (codec : Json.Codec) (raw : String) : Option Config :=
  (codec.fromText raw).bind decode

/-! ### From one end to the other -/

/-- The configuration the daemon asks for. -/
def requestedConfig (cmd : CommandLike) (opts : SandboxOptions) : Config where
  cwd := opts.cwd
  logDir := opts.logDir
  allow := opts.allow
  limits := opts.limits
  command := cmd.path
  args := cmd.args

/-- The configuration the wrapper gets: as many allow entries as asked for, all blank, and no
limits. -/
def receivedConfig (cmd : CommandLike) (opts : SandboxOptions) : Config :=
  { requestedConfig cmd opts with
    allow := opts.allow.map fun _ => {}
    limits := {} }

theorem exact_sandboxConfigJson (cmd : CommandLike) (opts : SandboxOptions) :
    (sandboxConfigJson cmd opts).Exact := by
  have hlim : opts.limits.toJson.Exact := by
    have hnum : ∀ n : UInt64, (Json.num n.toNat).Exact := by
      intro n
      have := n.toNat_lt
      exact .num _ (by omega) (by omega)
    refine .obj _ ?_
    simp only [List.mem_cons, List.not_mem_nil, or_false]
    rintro p (rfl | rfl | rfl | rfl) <;> exact hnum _
  have hallow : (Json.arr (opts.allow.map PathAccess.toJson)).Exact := by
    refine .arr _ fun j hj => ?_
    obtain ⟨a, -, rfl⟩ := List.mem_map.mp hj
    refine .obj _ ?_
    simp only [List.mem_cons, List.not_mem_nil, or_false]
    rintro p (rfl | rfl | rfl | rfl) <;> constructor
  have hargs : (Json.arr (cmd.args.map .str)).Exact := by
    refine .arr _ fun j hj => ?_
    obtain ⟨a, -, rfl⟩ := List.mem_map.mp hj
    exact .str a
  refine .obj _ fun p hp => ?_
  simp only [List.mem_append, List.mem_cons, List.not_mem_nil, or_false] at hp
  rcases hp with ((rfl | hp) | hp) | rfl | rfl | rfl
  · exact .str _
  · split at hp
    · cases hp
    · obtain rfl := List.mem_singleton.mp hp
      exact .str _
  · split at hp
    · cases hp
    · obtain rfl := List.mem_singleton.mp hp
      exact hallow
  · exact hlim
  · exact .str _
  · exact hargs

theorem decodeVec_strings (l : List String) :
    decodeVec decodeString (.arr (l.map .str)) = some l := by
  induction l with
  | nil => rfl
  | cons s l ih =>
      simp only [decodeVec, List.map_cons, List.mapM_cons] at ih ⊢
      rw [ih]
      rfl

theorem decodeVec_pathAccess (l : List Json) :
    decodeVec decodePathAccess (.arr l) = some (l.map fun _ => {}) := by
  induction l with
  | nil => rfl
  | cons j l ih =>
      simp only [decodeVec, List.mapM_cons] at ih ⊢
      rw [ih]
      rfl

theorem decode_sandboxConfigJson (cmd : CommandLike) (opts : SandboxOptions) :
    Config.decode (sandboxConfigJson cmd opts) = some (receivedConfig cmd opts) := by
  by_cases hl : opts.logDir = "" <;> by_cases ha : opts.allow = [] <;>
    simp [sandboxConfigJson, Config.decode, Config.decodeMembers, ConfigField.ofName, Config.set,
      decodeString, decodeVec_pathAccess, decodeVec_strings, decodeLimits, receivedConfig,
      requestedConfig, Function.comp_def, hl, ha]

theorem wrapSandbox_received (codec : Json.Codec) (uid gid : UInt32) (cmd : CommandLike)
    (opts : SandboxOptions) (hb : opts.binary ≠ "") :
    ∃ w payload, wrapSandbox codec uid gid cmd opts = .ok w ∧
      lastVal (w.env.filterMap splitEntry) configEnvVar = some payload ∧
      Config.fromStr codec payload = some (receivedConfig cmd opts) := by
  refine ⟨_, codec.toText (sandboxConfigJson cmd opts), by rw [wrapSandbox, if_neg hb], ?_, ?_⟩
  · simp only [List.filterMap_append, List.filterMap_cons, List.filterMap_nil,
      splitEntry_envEntry _ (show '=' ∉ configEnvVar.toList by decide), lastVal_concat, if_true]
  · rw [Config.fromStr, codec.fromText_toText _ (exact_sandboxConfigJson cmd opts)]
    exact decode_sandboxConfigJson cmd opts

theorem map_blank_eq_self_iff {l : List PathAccess} :
    (l.map fun _ => ({} : PathAccess)) = l ↔ ∀ a ∈ l, a = {} := by
  rw [List.map_const', eq_comm, List.eq_replicate_iff]
  simp

/-- **Sandbox configuration**: the wrapper gets what the daemon asked for exactly when the
daemon asked for no limit and every allow entry is blank. -/
theorem wrapSandbox_received_eq_requested_iff (codec : Json.Codec) (uid gid : UInt32)
    (cmd : CommandLike) (opts : SandboxOptions) (hb : opts.binary ≠ "") :
    ∃ w payload cfg, wrapSandbox codec uid gid cmd opts = .ok w ∧
      lastVal (w.env.filterMap splitEntry) configEnvVar = some payload ∧
      Config.fromStr codec payload = some cfg ∧
      (cfg = requestedConfig cmd opts ↔ opts.limits = {} ∧ ∀ a ∈ opts.allow, a = {}) := by
  obtain ⟨w, payload, hw, hp, hc⟩ := wrapSandbox_received codec uid gid cmd opts hb
  refine ⟨w, payload, _, hw, hp, hc, ?_⟩
  simp only [receivedConfig, requestedConfig, Config.mk.injEq, map_blank_eq_self_iff, true_and,
    and_true]
  exact ⟨fun ⟨ha, hl⟩ => ⟨hl.symm, ha⟩, fun ⟨hl, ha⟩ => ⟨ha, hl.symm⟩⟩

/-- One megabyte of memory, and read access to `/srv`. -/
def cappedOptions : SandboxOptions where
  binary := "/usr/bin/unitpm"
  cwd := "/srv"
  limits := { memoryBytes := 1048576 }
  allow := [{ path := "/srv", read := true }]

def sleepLike : CommandLike where
  path := "/bin/sleep"
  args := ["30"]

theorem wrapSandbox_received_eq_requested_iff_capped :
    ∃ w payload cfg, wrapSandbox Json.compact 1000 1000 sleepLike cappedOptions = .ok w ∧
      lastVal (w.env.filterMap splitEntry) configEnvVar = some payload ∧
      Config.fromStr Json.compact payload = some cfg ∧
      (cfg = requestedConfig sleepLike cappedOptions ↔
        cappedOptions.limits = {} ∧ ∀ a ∈ cappedOptions.allow, a = {}) :=
  wrapSandbox_received_eq_requested_iff Json.compact 1000 1000 sleepLike cappedOptions (by decide)

/-- The memory limit and the path rule are lost. -/
theorem wrapSandbox_loses_limits :
    ∃ w payload cfg, wrapSandbox Json.compact 1000 1000 sleepLike cappedOptions = .ok w ∧
      lastVal (w.env.filterMap splitEntry) configEnvVar = some payload ∧
      Config.fromStr Json.compact payload = some cfg ∧
      cfg.limits ≠ cappedOptions.limits ∧ cfg.allow ≠ cappedOptions.allow := by
  obtain ⟨w, payload, hw, hp, hc⟩ :=
    wrapSandbox_received Json.compact 1000 1000 sleepLike cappedOptions (by decide)
  exact ⟨w, payload, _, hw, hp, hc, by decide, by decide⟩

end Unitpm
