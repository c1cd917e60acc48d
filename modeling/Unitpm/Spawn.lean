import Unitpm.Dotenv
import Unitpm.Host
import Unitpm.Systemd

/-! # Building the command and its environment

`internal/daemon/manager/spawn.rs`, `build_command` of `supervise.rs` and
`Process::prepare_cmd`.  Nothing here spawns: `prepareCmd` returns the `Command` that
`start_process` hands to the operating system, and `planIsolation` returns the isolation plan
together with the files it writes. -/

namespace Unitpm

open Rust.Str

/-- Errors that abort a `start`. -/
inductive SpawnError where
  | invalidExecType
  | entryAndRuntimeRequired
  | invalidRuntime
  | tooManyArguments
  | invalidCwd (e : String)
  | envFileParse (e : String)
  | dynamicEnvCreds (e : String)
  | dynamicNoBinary (e : String)
  | sandboxNoBinary (e : String)
  | dynamic (e : DynamicError)
deriving DecidableEq

/-- `Display for SpawnError`. -/
def SpawnError.toText : SpawnError → String
  | invalidExecType => "ERR_BAD_REQUEST: invalid exec type"
  | entryAndRuntimeRequired => "ERR_BAD_REQUEST: entry and runtime required"
  | invalidRuntime => "ERR_BAD_REQUEST: invalid runtime"
  | tooManyArguments => "ERR_LIMITS: too many arguments (max 256)"
  | invalidCwd e => "ERR_BAD_REQUEST: invalid cwd: " ++ e
  | envFileParse e => "ERR_BAD_REQUEST: failed to parse env file: " ++ e
  | dynamicEnvCreds e => "failed to write env creds: " ++ e
  | dynamicNoBinary e => "failed to locate unitpm binary for env wrapper: " ++ e
  | sandboxNoBinary e => "sandbox: locate unitpm binary: " ++ e
  | dynamic .emptyId => "dynamic: dynamic: empty process id"

def maxArgCount : ℕ := 256

/-! ### The command line -/

/-- `shell_quote`. -/
def shellQuote (s : String) : String :=
  "'" ++ String.ofList (s.toList.flatMap fun c => if c = '\'' then "'\\''".toList else [c]) ++ "'"

/-- `option.filter(|s| !s.is_empty())`. -/
def nonEmpty (o : Option String) : Option String := o.filter (fun s => s ≠ "")

/-- `resolve_command`. -/
def resolveCommand (s : AppSpec) : Except SpawnError (String × List String) :=
  if s.exec.kind = "command" then
    match nonEmpty s.exec.command with
    | none => .error .invalidExecType
    | some binary =>
        let args := s.exec.args.getD []
        if args.length > maxArgCount then .error .tooManyArguments else .ok (binary, args)
  else if s.exec.kind = "entry" then
    match nonEmpty s.exec.entry, nonEmpty s.exec.runtime with
    | some entry, some runtime =>
        match (splitWhitespace runtime.toList).map String.ofList with
        | [] => .error .invalidRuntime
        | bin :: rt =>
            let finalArgs := rt ++ [entry] ++ s.exec.args.getD []
            if finalArgs.length > maxArgCount then .error .tooManyArguments
            else .ok (bin, finalArgs)
    | _, _ => .error .entryAndRuntimeRequired
  else .error .invalidExecType

/-- The string `build_command` passes to `sh -c`. -/
def shellLine (binary : String) (args : List String) : String :=
  args.foldl (fun q a => q ++ " " ++ shellQuote a) (shellQuote binary)

/-- `build_command`. -/
def buildCommand (binary : String) (args : List String) (shell : Bool) : Command :=
  if shell then { program := "/bin/sh", args := ["-c", shellLine binary args] }
  else { program := binary, args := args }

/-! ### The environment -/

/-- The names `prepare_env` forwards in system mode, apart from `LC_*`. -/
def allowedVars : List String :=
  ["PATH", "LANG", "TERM", "TZ", "TMPDIR", "USER", "LOGNAME", "SHELL", "PWD", "XDG_DATA_HOME",
    "XDG_CONFIG_HOME", "XDG_STATE_HOME", "XDG_CACHE_HOME", "XDG_RUNTIME_DIR"]

/-- The system-mode whitelist; loader variables are blocked last. -/
def whitelisted (key : String) : Bool :=
  !(startsWith "LD_" key || startsWith "DYLD_" key) &&
    (allowedVars.contains key || startsWith "LC_" key)

/-- `format!("{key}={value}")`. -/
def envEntry (p : String × String) : String := p.1 ++ "=" ++ p.2

/-- `entry.split_once('=')`. -/
def splitEntry (e : String) : Option (String × String) := splitOnceAt '=' e

theorem splitEntry_envEntry {k : String} (v : String) (hk : '=' ∉ k.toList) :
    splitEntry (envEntry (k, v)) = some (k, v) := by
  have e : (envEntry (k, v)).toList = k.toList ++ '=' :: v.toList := by
    simp [envEntry, String.toList_append]
  rw [splitEntry, splitOnceAt, e, splitOnce_append _ hk]
  simp

def isDynamic (s : AppSpec) : Bool :=
  match s.runAs with
  | some r => r.mode == "dynamic"
  | none => false

/-- The inherited part of the environment: the whitelist in system mode, then the `HOME` rule. -/
def inheritedEnv (h : Host) (dynamic : Bool) : List String :=
  let envs := (if h.systemMode then h.env.vars.filter (fun p => whitelisted p.1)
    else h.env.vars).map envEntry
  let hasHome := envs.any (startsWith "HOME=")
  let envs := if dynamic then envs.filter (fun e => !startsWith "HOME=" e) else envs
  if dynamic || hasHome then envs
  else match h.env.var "HOME" with
    | some home => envs ++ [envEntry ("HOME", home)]
    | none => envs

/-- An inherited entry is a variable of the daemon, or the `HOME` that was missing. -/
theorem mem_inheritedEnv {h : Host} {dynamic : Bool} {e : String}
    (he : e ∈ inheritedEnv h dynamic) :
    (∃ p ∈ h.env.vars, (h.systemMode = true → whitelisted p.1 = true) ∧ e = envEntry p) ∨
      ∃ home, h.env.var "HOME" = some home ∧ e = envEntry ("HOME", home) := by
  have hbase : ∀ e ∈ (if h.systemMode then h.env.vars.filter (fun p => whitelisted p.1)
      else h.env.vars).map envEntry,
      ∃ p ∈ h.env.vars, (h.systemMode = true → whitelisted p.1 = true) ∧ e = envEntry p := by
    intro e he
    obtain ⟨p, hp, rfl⟩ := List.mem_map.mp he
    split at hp
    · obtain ⟨hp, hw⟩ := List.mem_filter.mp hp
      exact ⟨p, hp, fun _ => hw, rfl⟩
    · exact ⟨p, hp, fun hs => absurd hs ‹_›, rfl⟩
  unfold inheritedEnv at he
  generalize (if h.systemMode then h.env.vars.filter (fun p => whitelisted p.1)
    else h.env.vars).map envEntry = base at he hbase
  have hfilter : ∀ e ∈ (if dynamic then base.filter (fun e => !startsWith "HOME=" e) else base),
      e ∈ base := by
    intro e he
    split at he
    · exact (List.mem_filter.mp he).1
    · exact he
  simp only at he
  split at he
  · exact Or.inl (hbase e (hfilter e he))
  · split at he
    · rename_i home hh
      rcases List.mem_append.mp he with he | he
      · exact Or.inl (hbase e (hfilter e he))
      · exact Or.inr ⟨home, hh, List.mem_singleton.mp he⟩
    · exact Or.inl (hbase e (hfilter e he))

/-- The pairs of the env file, in the order the parsed map is read. -/
def fileEnv (h : Host) (s : AppSpec) : Except SpawnError (List String) :=
  match nonEmpty s.envFile with
  | none => .ok []
  | some path =>
      match h.readToString path with
      | .error e => .error (.envFileParse e)
      | .ok text => .ok ((h.iter (Dotenv.parseStr text)).map envEntry)

/-- The pairs of `spec.env`. -/
def specEnv (s : AppSpec) : List String :=
  match s.env with
  | none => []
  | some m => m.entries.map envEntry

/-- `prepare_env`. -/
def prepareEnv (h : Host) (s : AppSpec) : Except SpawnError (List String) :=
  (fileEnv h s).map fun file => inheritedEnv h (isDynamic s) ++ file ++ specEnv s

/-! ### Isolation -/

/-- `std::env::split_paths`. -/
def splitPaths (path : String) : List String := (path.toList.splitOn ':').map String.ofList

/-- `PathBuf::join`. -/
def joinPath (a b : String) : String := String.ofList (Rust.Path.join a.toList b.toList)

def scanPathFor (h : Host) (name : String) : Option String :=
  match h.env.var "PATH" with
  | none => none
  | some path => ((splitPaths path).map (joinPath · name)).find? h.isFile

/-- `process_binary`: the `unitpm` binary on `PATH`, or beside the daemon. -/
def processBinary (h : Host) : Except String String :=
  match scanPathFor h "unitpm" with
  | some p => .ok p
  | none =>
      match h.exeParent with
      | .error e => .error e
      | .ok none => .error "no parent dir for current_exe"
      | .ok (some dir) =>
          let candidate := joinPath dir "unitpm"
          if h.pathExists candidate then .ok candidate
          else .error "unitpm binary not found in PATH or adjacent to daemon"

/-- The `DynamicContext` both builders make of a spec. -/
def dynamicContext (s : AppSpec) (infoId infoName : String) : DynamicContext :=
  { id := infoId, name := infoName, cwd := orEmpty s.cwd, resources := s.resources }

/-- `build_dynamic_args`. -/
def buildDynamicArgs (s : AppSpec) (infoId infoName : String) :
    Except DynamicError (List String) :=
  (dynamicCommand (dynamicContext s infoId infoName)).map (·.args)

inductive IsolationPlan where
  | self_
  | dynamic (c : DynamicCommand)
  | sandbox (binary : String)

def credsDir : String := "/var/lib/glyndor/unitpm/creds"

/-- Where `plan_isolation` stages the environment of a dynamic-mode process. -/
def credsEnvPath (infoId : String) : String := joinPath (joinPath credsDir infoId) "env"

/-- `env.join("\n")`. -/
def credentialBody (env : List String) : String :=
  String.ofList (joinWith '\n' (env.map String.toList))

/-- `plan_isolation`, with the files it wrote (path and contents). -/
def planIsolation (h : Host) (s : AppSpec) (infoId infoName : String) (env : List String) :
    List (String × String) × Except SpawnError IsolationPlan :=
  if s.runAsMode = "sandbox" then
    match processBinary h with
    | .error e => ([], .error (.sandboxNoBinary e))
    | .ok bin => ([], .ok (.sandbox bin))
  else if s.runAsMode = "dynamic" then
    match h.createDirAll (joinPath credsDir infoId) with
    | .error e => ([], .error (.dynamicEnvCreds e))
    | .ok _ =>
        let envPath := credsEnvPath infoId
        let body := credentialBody env
        match h.write envPath body with
        | .error e => ([], .error (.dynamicEnvCreds e))
        | .ok _ =>
            match processBinary h with
            | .error e => ([(envPath, body)], .error (.dynamicNoBinary e))
            | .ok bin =>
                match dynamicCommand (dynamicContext s infoId infoName) with
                | .error e => ([(envPath, body)], .error (.dynamic e))
                | .ok c =>
                    ([(envPath, body)],
                      .ok (.dynamic ((c.withWrapperBinary bin).withEnvPath envPath)))
  else ([], .ok .self_)

/-- The working-directory check of `prepare_cmd`. -/
def checkCwd (h : Host) (s : AppSpec) (cmd : Command) : Except SpawnError Command :=
  match nonEmpty s.cwd with
  | none => .ok cmd
  | some cwd =>
      if h.isDir cwd then .ok { cmd with currentDir := some cwd }
      else .error (.invalidCwd "not a directory")

/-- The isolation match of `prepare_cmd`: sandbox and dynamic mode replace the command built
from the spec. -/
def isolate (h : Host) (s : AppSpec) (infoId infoName : String) (cmd : Command) :
    Except SpawnError Command :=
  if s.runAsMode = "sandbox" then
    match processBinary h with
    | .error e => .error (.sandboxNoBinary e)
    | .ok bin =>
        .ok { program := bin, args := ["_exec-sandbox"], currentDir := some (s.cwd.getD ".") }
  else if s.runAsMode = "dynamic" then
    match buildDynamicArgs s infoId infoName with
    | .error e => .error (.dynamic e)
    | .ok argsList =>
        match processBinary h with
        | .error e => .error (.dynamicNoBinary e)
        | .ok bin =>
            .ok { program := "systemd-run", args := argsList ++ ["--", bin, execEnvSubcommand] }
  else .ok { cmd with setpgid := true }

/-- The `env` calls at the end of `prepare_cmd`. -/
def applyEnv (env : List String) (cmd : Command) : Command :=
  { cmd with envs := cmd.envs ++ env.filterMap splitEntry }

/-- `Process::prepare_cmd`. -/
def prepareCmd (h : Host) (s : AppSpec) (infoId infoName : String) : Except SpawnError Command :=
  match resolveCommand s with
  | .error e => .error e
  | .ok (bin, args) =>
      match checkCwd h s (buildCommand bin args s.exec.shell) with
      | .error e => .error e
      | .ok cmd =>
          match prepareEnv h s with
          | .error e => .error e
          | .ok env => (isolate h s infoId infoName cmd).map (applyEnv env)

/-! ### What `prepare_cmd` returns -/

/-- Every stage of a successful `prepare_cmd`. -/
theorem prepareCmd_ok_iff {h : Host} {s : AppSpec} {infoId infoName : String} {c : Command} :
    prepareCmd h s infoId infoName = .ok c ↔
      ∃ bin args cmd file iso, resolveCommand s = .ok (bin, args) ∧
        checkCwd h s (buildCommand bin args s.exec.shell) = .ok cmd ∧ fileEnv h s = .ok file ∧
        isolate h s infoId infoName cmd = .ok iso ∧
        c = applyEnv (inheritedEnv h (isDynamic s) ++ file ++ specEnv s) iso := by
  unfold prepareCmd prepareEnv
  constructor
  · intro hc
    cases hr : resolveCommand s with
    | error e => rw [hr] at hc; cases hc
    | ok p =>
        obtain ⟨bin, args⟩ := p
        rw [hr] at hc
        simp only at hc
        cases hw : checkCwd h s (buildCommand bin args s.exec.shell) with
        | error e => rw [hw] at hc; cases hc
        | ok cmd =>
            rw [hw] at hc
            simp only at hc
            cases hf : fileEnv h s with
            | error e => rw [hf] at hc; cases hc
            | ok file =>
                rw [hf] at hc
                simp only [Except.map] at hc
                cases hi : isolate h s infoId infoName cmd with
                | error e => rw [hi] at hc; cases hc
                | ok iso =>
                    rw [hi] at hc
                    exact ⟨bin, args, cmd, file, iso, rfl, hw, rfl, hi, (Except.ok.inj hc).symm⟩
  · rintro ⟨bin, args, cmd, file, iso, hr, hw, hf, hi, rfl⟩
    simp only [hr, hw, hf, hi, Except.map]

theorem buildCommand_envs (bin : String) (args : List String) (shell : Bool) :
    (buildCommand bin args shell).envs = [] ∧ (buildCommand bin args shell).envClear = false := by
  unfold buildCommand
  split <;> exact ⟨rfl, rfl⟩

theorem checkCwd_ok {h : Host} {s : AppSpec} {cmd cmd' : Command}
    (hc : checkCwd h s cmd = .ok cmd') : ∃ d, cmd' = { cmd with currentDir := d } := by
  unfold checkCwd at hc
  split at hc
  · exact ⟨cmd.currentDir, (Except.ok.inj hc).symm⟩
  · split at hc
    · exact ⟨_, (Except.ok.inj hc).symm⟩
    · cases hc

theorem isolate_envs {h : Host} {s : AppSpec} {infoId infoName : String} {cmd iso : Command}
    (hi : isolate h s infoId infoName cmd = .ok iso) (he : cmd.envs = [])
    (hc : cmd.envClear = false) : iso.envs = [] ∧ iso.envClear = false := by
  unfold isolate at hi
  split_ifs at hi with h1 h2
  · split at hi
    · cases hi
    · obtain rfl := Except.ok.inj hi
      exact ⟨rfl, rfl⟩
  · split at hi
    · cases hi
    · split at hi
      · cases hi
      · obtain rfl := Except.ok.inj hi
        exact ⟨rfl, rfl⟩
  · obtain rfl := Except.ok.inj hi
    exact ⟨he, hc⟩

end Unitpm
