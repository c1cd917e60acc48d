import Unitpm.ChildEnv
import Unitpm.Landlock

/-! # The sandbox wrapper

`_exec-sandbox` of `internal/cli/commands/execsandbox`: it takes its configuration out of the
environment, gives up rights one after the other and replaces itself by the user's program.  What
the kernel answers to each call is the parameter `WrapperHost`, so every step may fail.

`execed_confined`: whatever fails, a program that is started is confined.  `wrapped_execed_iff`:
when a command that `wrap_sandbox` has wrapped is started at all. -/

namespace Unitpm.ExecSandbox

open Overlay Rust.Path Rust.Str Fs Landlock PathBeneath

/-! ### The calls -/

/-- The resources `rlimit::apply` knows. -/
inductive Resource where
  | as | cpu | nproc | nofile
deriving DecidableEq

def Resource.name : Resource → String
  | as => "RLIMIT_AS"
  | cpu => "RLIMIT_CPU"
  | nproc => "RLIMIT_NPROC"
  | nofile => "RLIMIT_NOFILE"

/-- The calls of the wrapper, but for those of Landlock. -/
inductive Call where
  | noNewPrivs
  | rootPrivate
  | detachProc
  | mountProc
  | mountTmp
  | chdir (path : String)
  | setrlimit (r : Resource) (value : UInt64)
deriving DecidableEq

/-- What the wrapper is told: the errors of its calls, of `serde_json` and of `execve`. -/
structure WrapperHost where
  callErr : Call → Option String
  landlock : LandlockHost
  isFile : String → Bool
  configErr : String → String
  execErr : String → Option String

inductive WrapperError where
  | notSet
  | config (e : String)
  | missingCommand
  | cwdNotAbsolute (cwd : String)
  | noNewPrivs (e : String)
  | rootPrivate (e : String)
  | mount (e : String)
  | chdir (e : String)
  | rlimit (r : Resource) (e : String)
  | landlock (e : LandlockError)
  | notFound (command : String)
  | execve (e : String)
deriving DecidableEq

def WrapperError.toText : WrapperError → String
  | notSet => configEnvVar ++ " not set"
  | config e => "invalid sandbox config: " ++ e
  | missingCommand => "sandbox config missing command"
  | cwdNotAbsolute cwd => "sandbox cwd must be absolute: " ++ debug cwd
  | noNewPrivs e => "prctl(PR_SET_NO_NEW_PRIVS): " ++ e
  | rootPrivate e => "make-rprivate /: " ++ e
  | mount e => "mount private /tmp: " ++ e
  | chdir e => "chdir: " ++ e
  | rlimit r e => "rlimit: " ++ r.name ++ ": " ++ e
  | landlock e => "landlock: " ++ e.toText
  | notFound command => "command not found: " ++ command
  | execve e => "execve: " ++ e

/-- The wrapper's process: its environment, the calls that have taken effect, in order, and the
ruleset in force. -/
structure Wrapper where
  env : DaemonEnv
  done : List Call := []
  ruleset : Option KernelRuleset := none

/-- A call that has to succeed. -/
def Wrapper.call (host : WrapperHost) (w : Wrapper) (c : Call) (error : String → WrapperError) :
    Except WrapperError Wrapper :=
  match host.callErr c with
  | some e => .error (error e)
  | none => .ok { w with done := w.done ++ [c] }

/-- A call whose failure is passed over. -/
def Wrapper.attempt (host : WrapperHost) (w : Wrapper) (c : Call) : Wrapper :=
  match host.callErr c with
  | some _ => w
  | none => { w with done := w.done ++ [c] }

/-! ### The configuration -/

/-- `remove_var`. -/
def removeVar (env : DaemonEnv) (k : String) : DaemonEnv where
  vars := env.vars.filter (·.1 ≠ k)
  nodup := (List.filter_sublist.map Prod.fst).nodup env.nodup
  names p hp := env.names p (List.mem_of_mem_filter hp)

/-- What is read out of the environment, and the checks before the first call. -/
def loadConfig (codec : Json.Codec) (host : WrapperHost) (env : DaemonEnv) :
    Except WrapperError Config :=
  match env.var configEnvVar with
  | none => .error .notSet
  | some raw =>
      if raw = "" then .error .notSet
      else match Config.fromStr codec raw with
        | none => .error (.config (host.configErr raw))
        | some cfg =>
            if cfg.command = "" then .error .missingCommand
            else if cfg.cwd ≠ "" ∧ isAbsolute cfg.cwd.toList = false then
              .error (.cwdNotAbsolute cfg.cwd)
            else .ok cfg

/-! ### The ruleset -/

/-- `runtime_dir`. -/
def runtimeDir (env : DaemonEnv) : String := (env.var "XDG_RUNTIME_DIR").getD "/run"

/-- `sensible_defaults`. -/
def sensibleDefaults (env : DaemonEnv) (cwd logDir : String) : Ruleset where
  allow :=
    [⟨"/usr", true, false, true⟩, ⟨"/bin", true, false, true⟩, ⟨"/sbin", true, false, true⟩,
      ⟨"/lib", true, false, true⟩, ⟨"/lib64", true, false, true⟩, ⟨"/proc", true, false, false⟩,
      ⟨"/sys", true, false, false⟩, ⟨"/dev", true, true, false⟩, ⟨"/etc", true, false, false⟩,
      ⟨"/tmp", true, true, true⟩, ⟨runtimeDir env, true, true, true⟩] ++
    (if cwd = "" then [] else [⟨cwd, true, true, true⟩]) ++
    (if logDir ≠ "" ∧ logDir ≠ cwd then [⟨logDir, true, true, false⟩] else [])

/-- The ruleset for a configuration. -/
def rulesetFor (env : DaemonEnv) (cfg : Config) : Ruleset :=
  if cfg.allow = [] then sensibleDefaults env cfg.cwd cfg.logDir else { allow := cfg.allow }

/-! ### The steps -/

/-- The limits that are set, in the order of `rlimit::apply`. -/
def limitSettings (l : Limits) : List (Resource × UInt64) :=
  [(.as, l.memoryBytes), (.cpu, l.cpuSeconds), (.nproc, l.maxProcs), (.nofile, l.maxFiles)].filter
    (0 < ·.2)

/-- The step into the directory, if there is one. -/
def enterCwd (host : WrapperHost) (cfg : Config) (w : Wrapper) : Except WrapperError Wrapper :=
  if cfg.cwd = "" then .ok w else w.call host (.chdir cfg.cwd) .chdir

/-- `rlimit::apply`. -/
def applyLimits (host : WrapperHost) (w : Wrapper) :
    List (Resource × UInt64) → Except WrapperError Wrapper
  | [] => .ok w
  | (r, value) :: settings =>
      match w.call host (.setrlimit r value) (.rlimit r) with
      | .error e => .error e
      | .ok w => applyLimits host w settings

/-- The step of Landlock. -/
def enforce (host : WrapperHost) (cfg : Config) (w : Wrapper) : Except WrapperError Wrapper :=
  match Landlock.apply host.landlock (rulesetFor w.env cfg) with
  | .error e => .error (.landlock e)
  | .ok k => .ok { w with ruleset := k }

/-- The steps between the configuration and the program. -/
def confine (host : WrapperHost) (cfg : Config) (w : Wrapper) : Except WrapperError Wrapper := do
  let w ← w.call host .noNewPrivs .noNewPrivs
  let w ← w.call host .rootPrivate .rootPrivate
  let w := (w.attempt host .detachProc).attempt host .mountProc
  let w ← w.call host .mountTmp .mount
  let w ← enterCwd host cfg w
  let w ← applyLimits host w (limitSettings cfg.limits)
  enforce host cfg w

/-- `which`. -/
def which (host : WrapperHost) (env : DaemonEnv) (name : String) : Option String :=
  if '/' ∈ name.toList then (if host.isFile name then some name else none)
  else match env.var "PATH" with
    | none => none
    | some path => ((splitPaths path).map (joinPath · name)).find? host.isFile

/-- The program that has taken the wrapper's place, with the `env` calls after `env_clear`. -/
structure Image where
  program : String
  args : List String
  envs : List (String × String)
  wrapper : Wrapper

/-- The environment of the program. -/
def Image.childEnv (img : Image) : String → Option String := overlay (fun _ => none) img.envs

/-- The call of `exec`. -/
def execImage (host : WrapperHost) (cfg : Config) (w : Wrapper) : Except WrapperError Image :=
  match which host w.env cfg.command with
  | none => .error (.notFound cfg.command)
  | some path =>
      match host.execErr path with
      | some e => .error (.execve e)
      | none =>
          .ok
            { program := path
              args := cfg.args
              envs := (w.env.vars.map envEntry).filterMap splitEntry
              wrapper := w }

/-- `run`: it returns only where nothing was started, `none` after the help text. -/
def run (codec : Json.Codec) (host : WrapperHost) (env : DaemonEnv) (args : List String) :
    Except WrapperError (Option Image) :=
  if args.any (fun a => a == "-h" || a == "--help") then .ok none
  else do
    let cfg ← loadConfig codec host env
    let w ← confine host cfg { env := removeVar env configEnvVar }
    let img ← execImage host cfg w
    return some img

/-! ### When the steps succeed -/

/-- The calls that have to succeed. -/
def required (cfg : Config) : List Call :=
  [.noNewPrivs, .rootPrivate, .mountTmp] ++ (if cfg.cwd = "" then [] else [.chdir cfg.cwd]) ++
    (limitSettings cfg.limits).map fun s => .setrlimit s.1 s.2

/-- The calls that take effect where these do. -/
def effective (host : WrapperHost) (cfg : Config) : List Call :=
  [.noNewPrivs, .rootPrivate] ++
    [.detachProc, .mountProc].filter (fun c => (host.callErr c).isNone) ++ [.mountTmp] ++
    (if cfg.cwd = "" then [] else [.chdir cfg.cwd]) ++
    (limitSettings cfg.limits).map fun s => .setrlimit s.1 s.2

section Steps

variable {codec : Json.Codec} {host : WrapperHost} {env : DaemonEnv} {cfg : Config}
  {w w' : Wrapper} {args : List String} {img : Image}

theorem bind_ok_iff {ε α β : Type} {x : Except ε α} {f : α → Except ε β} {b : β} :
    (x >>= f) = .ok b ↔ ∃ a, x = .ok a ∧ f a = .ok b := by
  constructor
  · intro h
    cases x with
    | error e => cases h
    | ok a => exact ⟨a, rfl, h⟩
  · rintro ⟨a, rfl, h⟩
    exact h

theorem call_ok_iff {c : Call} {error : String → WrapperError} :
    w.call host c error = .ok w' ↔
      host.callErr c = none ∧ w' = { w with done := w.done ++ [c] } := by
  unfold Wrapper.call
  cases hc : host.callErr c with
  | none => simp [eq_comm]
  | some e => simp

theorem attempt_eq (c : Call) : w.attempt host c =
    { w with done := w.done ++ [c].filter (fun c => (host.callErr c).isNone) } := by
  unfold Wrapper.attempt
  cases hc : host.callErr c <;> simp [hc]

theorem applyLimits_ok_iff {settings : List (Resource × UInt64)} :
    applyLimits host w settings = .ok w' ↔
      (∀ s ∈ settings, host.callErr (.setrlimit s.1 s.2) = none) ∧
        w' = { w with done := w.done ++ settings.map fun s => .setrlimit s.1 s.2 } := by
  induction settings generalizing w with
  | nil => simp [applyLimits, eq_comm]
  | cons s settings ih =>
      obtain ⟨r, value⟩ := s
      rw [applyLimits]
      cases hc : w.call host (.setrlimit r value) (.rlimit r) with
      | error e =>
          have hnot : host.callErr (.setrlimit r value) ≠ none := fun h => by
            rw [call_ok_iff.mpr ⟨h, rfl⟩] at hc
            cases hc
          simp [hnot]
      | ok w₁ =>
          obtain ⟨hnone, rfl⟩ := call_ok_iff.mp hc
          simp [ih, hnone]

theorem enterCwd_ok_iff : enterCwd host cfg w = .ok w' ↔
      (∀ c ∈ (if cfg.cwd = "" then [] else [Call.chdir cfg.cwd]), host.callErr c = none) ∧
        w' = { w with done := w.done ++ (if cfg.cwd = "" then [] else [Call.chdir cfg.cwd]) } := by
  unfold enterCwd
  split_ifs with hcwd
  · simp only [Except.ok.injEq, List.not_mem_nil, false_imp_iff, implies_true, List.append_nil,
      true_and]
    exact eq_comm
  · rw [call_ok_iff]
    simp

theorem enforce_ok_iff : enforce host cfg w = .ok w' ↔
    ∃ k, Landlock.apply host.landlock (rulesetFor w.env cfg) = .ok k ∧
      w' = { w with ruleset := k } := by
  unfold enforce
  cases Landlock.apply host.landlock (rulesetFor w.env cfg) with
  | error e => simp
  | ok k => simp [eq_comm]

/-- **The steps**: every required call has succeeded, and Landlock too. -/
theorem confine_ok_iff : confine host cfg w = .ok w' ↔
    (∀ c ∈ required cfg, host.callErr c = none) ∧
      ∃ k, Landlock.apply host.landlock (rulesetFor w.env cfg) = .ok k ∧
        w' = { w with done := w.done ++ effective host cfg, ruleset := k } := by
  unfold confine
  simp only [bind_ok_iff, call_ok_iff, attempt_eq, enterCwd_ok_iff, applyLimits_ok_iff,
    enforce_ok_iff, required, effective, List.forall_mem_append, List.forall_mem_cons,
    List.forall_mem_map]
  constructor
  · rintro ⟨_, ⟨h1, rfl⟩, _, ⟨h2, rfl⟩, _, ⟨h3, rfl⟩, _, ⟨h4, rfl⟩, _, ⟨h5, rfl⟩, k, hk, rfl⟩
    refine ⟨⟨⟨⟨h1, h2, h3, by simp⟩, h4⟩, h5⟩, k, hk, ?_⟩
    simp [List.filter_cons]
    split_ifs <;> simp
  · rintro ⟨⟨⟨⟨h1, h2, h3, -⟩, h4⟩, h5⟩, k, hk, rfl⟩
    refine ⟨_, ⟨h1, rfl⟩, _, ⟨h2, rfl⟩, _, ⟨h3, rfl⟩, _, ⟨h4, rfl⟩, _, ⟨h5, rfl⟩, k, hk, ?_⟩
    simp [List.filter_cons]
    split_ifs <;> simp

theorem execImage_ok_iff : execImage host cfg w = .ok img ↔
    ∃ path, which host w.env cfg.command = some path ∧ host.execErr path = none ∧
      img = ⟨path, cfg.args, (w.env.vars.map envEntry).filterMap splitEntry, w⟩ := by
  unfold execImage
  cases which host w.env cfg.command with
  | none => simp
  | some path =>
      cases hexec : host.execErr path with
      | none => simp [hexec, eq_comm]
      | some e => simp [hexec]

theorem run_execed_iff : run codec host env args = .ok (some img) ↔
    args.any (fun a => a == "-h" || a == "--help") = false ∧
      ∃ cfg, loadConfig codec host env = .ok cfg ∧
        ∃ w, confine host cfg { env := removeVar env configEnvVar } = .ok w ∧
          execImage host cfg w = .ok img := by
  unfold run
  cases args.any (fun a => a == "-h" || a == "--help") with
  | true => simp
  | false =>
      simp only [Bool.false_eq_true, if_false, bind_ok_iff, true_and]
      refine exists_congr fun cfg => and_congr_right fun _ => exists_congr fun w =>
        and_congr_right fun _ => ?_
      simp [pure, Except.pure]

theorem loadConfig_ok_iff : loadConfig codec host env = .ok cfg ↔
    ∃ raw, env.var configEnvVar = some raw ∧ raw ≠ "" ∧ Config.fromStr codec raw = some cfg ∧
      cfg.command ≠ "" ∧ (cfg.cwd = "" ∨ isAbsolute cfg.cwd.toList = true) := by
  unfold loadConfig
  cases env.var configEnvVar with
  | none => simp
  | some raw =>
      by_cases hraw : raw = ""
      · simp [hraw]
      · cases hcfg : Config.fromStr codec raw with
        | none => simp [hraw, hcfg]
        | some c =>
            simp only [hraw, if_false, hcfg, Option.some.injEq, ne_eq, exists_eq_left',
              not_false_eq_true, true_and]
            split_ifs with hcommand hcwd
            · simp only [false_iff, not_and]
              rintro rfl h
              exact absurd hcommand h
            · simp only [false_iff, not_and, not_or]
              rintro rfl -
              simpa using hcwd
            · simp only [Except.ok.injEq]
              constructor
              · rintro rfl
                refine ⟨rfl, hcommand, ?_⟩
                by_contra hnot
                rw [not_or, Bool.not_eq_true] at hnot
                exact hcwd hnot
              · exact fun h => h.1

end Steps

/-! ### What arrives of a configuration -/

/-- Nothing of the limits and of the allowed paths arrives. -/
structure Blank (cfg : Config) : Prop where
  limits : cfg.limits = {}
  allow : ∀ a ∈ cfg.allow, a = {}

section Blank

variable {codec : Json.Codec} {cfg cfg' : Config}

theorem decodeVec_blank {j : Json} {l : List PathAccess}
    (h : decodeVec decodePathAccess j = some l) : ∀ a ∈ l, a = {} := by
  unfold decodeVec at h
  split at h
  · rename_i items
    rw [show items.mapM decodePathAccess = some (items.map fun _ => {}) from
      decodeVec_pathAccess items] at h
    obtain rfl := Option.some.inj h
    intro a ha
    obtain ⟨_, -, rfl⟩ := List.mem_map.mp ha
    rfl
  · cases h

theorem Blank.set (hc : Blank cfg) {f : ConfigField} {j : Json} (h : cfg.set f j = some cfg') :
    Blank cfg' := by
  cases f with
  | allow =>
      obtain ⟨l, hl, rfl⟩ := Option.map_eq_some_iff.mp h
      exact ⟨hc.limits, decodeVec_blank hl⟩
  | limits =>
      obtain rfl := Option.some.inj h
      exact ⟨rfl, hc.allow⟩
  | cwd | logDir | command | args =>
      obtain ⟨_, -, rfl⟩ := Option.map_eq_some_iff.mp h
      exact ⟨hc.limits, hc.allow⟩

theorem Blank.decodeMembers {l : List (String × Json)} {seen : List ConfigField} (hc : Blank cfg)
    (h : Config.decodeMembers seen cfg l = some cfg') : Blank cfg' := by
  induction l generalizing seen cfg with
  | nil =>
      obtain rfl := Option.some.inj h
      exact hc
  | cons m l ih =>
      obtain ⟨k, j⟩ := m
      rw [Config.decodeMembers] at h
      split at h
      · exact ih hc h
      · split_ifs at h
        obtain ⟨c, hset, hrest⟩ := Option.bind_eq_some_iff.mp h
        exact ih (hc.set hset) hrest

theorem Blank.decodeItems {l : List Json} {fs : List ConfigField} (hc : Blank cfg)
    (h : Config.decodeItems fs cfg l = some cfg') : Blank cfg' := by
  induction l generalizing fs cfg with
  | nil =>
      obtain rfl : cfg = cfg' := by cases fs <;> exact Option.some.inj h
      exact hc
  | cons j l ih =>
      cases fs with
      | nil => cases h
      | cons f fs =>
          obtain ⟨c, hset, hrest⟩ := Option.bind_eq_some_iff.mp h
          exact ih (hc.set hset) hrest

/-- **No configuration arrives with a limit**, and what it allows is blank. -/
theorem blank_of_fromStr {raw : String} (h : Config.fromStr codec raw = some cfg) : Blank cfg := by
  obtain ⟨j, -, hj⟩ := Option.bind_eq_some_iff.mp h
  have hempty : Blank {} := ⟨rfl, by simp⟩
  cases j with
  | obj l => exact hempty.decodeMembers hj
  | arr l => exact hempty.decodeItems hj
  | null | bool _ | num _ | real _ | str _ => cases hj

theorem Blank.limitSettings (hc : Blank cfg) : limitSettings cfg.limits = [] := by
  rw [hc.limits]
  decide

end Blank

/-! ### Confinement -/

/-- The paths beneath which the defaults permit to write. -/
def WritablePath (env : DaemonEnv) (cfg : Config) (path : String) : Prop :=
  path ∈ ["/dev", "/tmp", runtimeDir env] ∨ path ≠ "" ∧ (path = cfg.cwd ∨ path = cfg.logDir)

/-- A place beneath one of them, as the kernel resolves them. -/
def WritablePlace (host : WrapperHost) (env : DaemonEnv) (cfg : Config) (place : List FileName) :
    Prop :=
  ∃ path top, WritablePath env cfg path ∧ host.landlock.placeOf path = some top ∧ Beneath place top

/-- The calls that have taken effect when the program starts. -/
def confiningCalls (host : WrapperHost) (cfg : Config) : List Call :=
  [.noNewPrivs, .rootPrivate] ++
    [.detachProc, .mountProc].filter (fun c => (host.callErr c).isNone) ++ [.mountTmp] ++
    if cfg.cwd = "" then [] else [.chdir cfg.cwd]

/-- The program is the one of the configuration, in the environment of the wrapper without the
configuration, and it can neither gain privileges nor see the host's `/tmp`.  Where the kernel has
Landlock it may write, and change directories, in the writable places only. -/
structure Confined (host : WrapperHost) (env : DaemonEnv) (cfg : Config) (img : Image) : Prop where
  program : which host (removeVar env configEnvVar) cfg.command = some img.program
  args : img.args = cfg.args
  childEnv : ∀ k, k ≠ "" → '=' ∉ k.toList →
    img.childEnv k = if k = configEnvVar then none else env.var k
  calls : img.wrapper.done = confiningCalls host cfg
  writes : ∀ abi, host.landlock.version = .ok abi → 1 ≤ abi →
    ∃ k, img.wrapper.ruleset = some k ∧ ∀ place, ∀ r ∈ rights writeClass,
      (k.layer.Permits Beneath [(place, r)] ↔
        r < 13 ∧ WritablePlace host (removeVar env configEnvVar) cfg place ∨
          r = truncate ∧ abi < 3)

section Rights

variable {host : LandlockHost} {env : DaemonEnv} {cfg : Config} {a : PathAccess} {abi : ℤ}
  {place : List FileName} {r : ℕ}

theorem lt_of_mem_writeClass (hr : r ∈ rights writeClass) : r < 13 ∨ r = refer ∨ r = truncate := by
  have hbits : ∀ i < 64, writeClass.getLsbD i = true → i < 13 ∨ i = refer ∨ i = truncate := by
    decide
  by_cases hlt : r < 64
  · exact hbits r hlt hr
  · have : writeClass.getLsbD r = false := BitVec.getLsbD_of_ge _ _ (by omega)
    rw [mem_rights, this] at hr
    cases hr

theorem mem_accessMask_iff (hr : r ∈ rights writeClass) (hlt : r < 13) :
    r ∈ rights (accessMask a (BitVec.allOnes 64)) ↔ a.write = true := by
  have hbits : ∀ read execute : Bool, ∀ i < 13, writeClass.getLsbD i = true →
      (accessMask ⟨"", read, false, execute⟩ (BitVec.allOnes 64)).getLsbD i = false := by decide
  refine ⟨fun h => ?_, fun h => mem_accessMask_of_write h hr hlt⟩
  by_contra hwrite
  obtain ⟨path, read, write, execute⟩ := a
  obtain rfl : write = false := by simpa using hwrite
  have hnot : (accessMask ⟨path, read, false, execute⟩ (BitVec.allOnes 64)).getLsbD r = false :=
    hbits read execute r hlt hr
  rw [mem_rights, hnot] at h
  cases h

theorem exists_write_iff (path : String) :
    (∃ a ∈ (sensibleDefaults env cfg.cwd cfg.logDir).allow, a.write = true ∧ a.path = path) ↔
      WritablePath env cfg path := by
  unfold sensibleDefaults WritablePath
  by_cases hcwd : cfg.cwd = "" <;> by_cases hlog : cfg.logDir = "" <;>
    by_cases heq : cfg.logDir = cfg.cwd <;> simp [hcwd, hlog, heq] <;> grind

/-- What the defaults allow, whatever is handled. -/
theorem grants_defaults_iff (hr : r ∈ rights writeClass) (hlt : r < 13) :
    Grants Beneath (policy host (sensibleDefaults env cfg.cwd cfg.logDir).allow) place r ↔
      ∃ path top, WritablePath env cfg path ∧ host.placeOf path = some top ∧ Beneath place top := by
  constructor
  · rintro ⟨rule, hrule, hbeneath, hmem⟩
    obtain ⟨a, ha, hplace⟩ := List.mem_filterMap.mp hrule
    obtain ⟨top, htop, rfl⟩ := Option.map_eq_some_iff.mp hplace
    have hwrite := (mem_accessMask_iff hr hlt).mp hmem
    exact ⟨a.path, top, (exists_write_iff a.path).mp ⟨a, ha, hwrite, rfl⟩, htop, hbeneath⟩
  · rintro ⟨path, top, hpath, htop, hbeneath⟩
    obtain ⟨a, ha, hwrite, rfl⟩ := (exists_write_iff path).mpr hpath
    exact ⟨(top, _), List.mem_filterMap.mpr ⟨a, ha, by rw [htop]; rfl⟩, hbeneath,
      (mem_accessMask_iff hr hlt).mpr hwrite⟩

/-- **What the ruleset of the defaults permits.**  To move a file to another directory is never
permitted, and to cut one only where the kernel does not ask for the right. -/
theorem permits_defaults_iff {k : KernelRuleset} (hk : InForce host
    (sensibleDefaults env cfg.cwd cfg.logDir).allow abi k) (hr : r ∈ rights writeClass) :
    k.layer.Permits Beneath [(place, r)] ↔
      r < 13 ∧ (∃ path top, WritablePath env cfg path ∧ host.placeOf path = some top ∧
        Beneath place top) ∨ r = truncate ∧ abi < 3 := by
  have hsingle : k.layer.Permits Beneath [(place, r)] ↔
      (r ∈ insert refer (rights (fsMask abi)) →
        Grants Beneath (policy host (sensibleDefaults env cfg.cwd cfg.logDir).allow) place r ∧
          r ∈ rights (fsMask abi)) := by
    rw [← hk.grants, ← hk.handled]
    simp [Layer.Permits, KernelRuleset.layer]
  rw [hsingle]
  obtain hlt | rfl | rfl := lt_of_mem_writeClass hr
  · have hhandled : r ∈ rights (fsMask abi) := mem_rights_fsMask.mpr (.inl hlt)
    have hne : r ≠ truncate := by
      unfold truncate
      omega
    rw [← grants_defaults_iff hr hlt]
    simp [hhandled, hlt, hne]
  · have hnot : ¬ Grants Beneath (policy host
        (sensibleDefaults env cfg.cwd cfg.logDir).allow) place refer := not_grants_policy (.inl rfl)
    have hne : ¬ (refer < 13 ∨ refer = truncate) := by decide
    rw [not_or] at hne
    simp [hnot, hne.1, hne.2]
  · have hnot : ¬ Grants Beneath (policy host
        (sensibleDefaults env cfg.cwd cfg.logDir).allow) place truncate :=
      not_grants_policy (.inr rfl)
    have hhandled : truncate ∈ insert refer (rights (fsMask abi)) ↔ 3 ≤ abi := by
      rw [Set.mem_insert_iff, mem_rights_fsMask]
      unfold refer truncate
      omega
    have hge : ¬ truncate < 13 := by decide
    simp [hnot, hhandled, hge]

end Rights

section Execed

variable {codec : Json.Codec} {host : WrapperHost} {env : DaemonEnv} {cfg : Config}
  {args : List String} {img : Image} {rs : Ruleset} {abi : ℤ} {r : Option KernelRuleset}

theorem lastVal_filter_ne (l : List (String × String)) (name k : String) :
    lastVal (l.filter (·.1 ≠ name)) k = if k = name then none else lastVal l k := by
  induction l with
  | nil => simp
  | cons p l ih =>
      rw [List.filter_cons, lastVal_cons]
      by_cases hp : p.1 = name
      · rw [if_neg (by simpa using hp), ih]
        by_cases hk : k = name
        · simp [hk]
        · have hne : p.1 ≠ k := fun h => hk (h.symm.trans hp)
          simp [hk, hne]
      · rw [if_pos (by simpa using hp), lastVal_cons, ih]
        by_cases hk : k = name
        · subst hk
          simp [hp]
        · simp [hk]

theorem removeVar_var (name k : String) :
    (removeVar env name).var k = if k = name then none else env.var k :=
  lastVal_filter_ne env.vars name k

/-- What `vars` and `split_once` make of an entry is the entry, but for names with `=`. -/
theorem lastVal_entries {l : List (String × String)} (hl : ∀ p ∈ l, '=' ∉ p.1.toList.tail)
    {k : String} (hk : k ≠ "") (heq : '=' ∉ k.toList) :
    lastVal ((l.map envEntry).filterMap splitEntry) k = lastVal l k := by
  induction l with
  | nil => rfl
  | cons p l ih =>
      have ih := ih fun q hq => hl q (List.mem_cons_of_mem _ hq)
      rw [List.map_cons, lastVal_cons]
      cases hs : splitEntry (envEntry p) with
      | none =>
          have hne : p.1 ≠ k := by
            rintro rfl
            rw [splitEntry_envEntry p.2 heq] at hs
            cases hs
          rw [List.filterMap_cons_none hs, ih, if_neg hne, Option.or_none]
      | some q =>
          rw [List.filterMap_cons_some hs, lastVal_cons, ih]
          congr 1
          by_cases hq : q.1 = k
          · obtain ⟨q1, q2⟩ := q
            obtain rfl : q1 = k := hq
            obtain rfl := splitEntry_envEntry_of_ne hk (hl p List.mem_cons_self) hs
            rfl
          · have hne : p.1 ≠ k := by
              rintro rfl
              rw [splitEntry_envEntry p.2 heq] at hs
              exact hq (congrArg Prod.fst (Option.some.inj hs)).symm
            rw [if_neg hq, if_neg hne]

theorem apply_ok_iff_of_abi {host : LandlockHost} (hversion : host.version = .ok abi)
    (habi : 1 ≤ abi) :
    Landlock.apply host rs = .ok r ↔ ∃ k, install host rs abi = .ok k ∧ r = some k := by
  rw [Landlock.apply, getAbiVersion, hversion]
  simp only [ge_iff_le, habi, if_true]
  cases install host rs abi with
  | error e => simp [Except.map]
  | ok k => simp [Except.map, eq_comm]

theorem not_install_blank {host : LandlockHost} {k : KernelRuleset} (hne : rs.allow ≠ [])
    (hblank : ∀ a ∈ rs.allow, a = {}) : install host rs abi ≠ .ok k := by
  intro h
  have hrules := install_ok h
  obtain ⟨a, l, hal⟩ := List.exists_cons_of_ne_nil hne
  obtain rfl := hblank a (by rw [hal]; exact List.mem_cons_self)
  rw [hal, addRules, addPathRule, if_pos (by decide)] at hrules
  cases hrules

/-- **Fail closed**: whatever fails, a program that is started is confined. -/
theorem execed_confined (codec : Json.Codec) (host : WrapperHost) (env : DaemonEnv)
    (args : List String) (img : Image) (h : run codec host env args = .ok (some img)) :
    ∃ raw cfg, env.var configEnvVar = some raw ∧ Config.fromStr codec raw = some cfg ∧
      Confined host env cfg img := by
  obtain ⟨-, cfg, hload, w, hconfine, himage⟩ := run_execed_iff.mp h
  obtain ⟨raw, hraw, -, hcfg, -⟩ := loadConfig_ok_iff.mp hload
  obtain ⟨-, r, hr, rfl⟩ := confine_ok_iff.mp hconfine
  obtain ⟨path, hpath, -, rfl⟩ := execImage_ok_iff.mp himage
  have hblank := blank_of_fromStr hcfg
  refine ⟨raw, cfg, hraw, hcfg, hpath, rfl, ?_, ?_, ?_⟩
  · intro k hk heq
    have hnames := fun p hp => ((removeVar env configEnvVar).names p hp).2
    have hvals := lastVal_entries hnames hk heq
    rw [← removeVar_var]
    simpa [Image.childEnv, overlay, DaemonEnv.var] using hvals
  · simp [effective, confiningCalls, hblank.limitSettings]
  · intro abi hversion habi
    obtain ⟨k, hk, rfl⟩ := (apply_ok_iff_of_abi hversion habi).mp hr
    refine ⟨k, rfl, fun place right hright => ?_⟩
    have hallow : cfg.allow = [] := by
      by_contra hne
      rw [rulesetFor, if_neg hne] at hk
      exact not_install_blank hne hblank.allow hk
    rw [rulesetFor, if_pos hallow] at hr
    have hself : host.landlock.withAbi abi = host.landlock := by
      rw [LandlockHost.withAbi, ← hversion]
    rw [← hself] at hr
    exact permits_defaults_iff (inForce_of_apply hr) hright

end Execed

/-! ### When a wrapped command is started -/

/-- A kernel without Landlock. -/
def Lacks (host : LandlockHost) : Prop :=
  host.version = .error enosys ∨ ∃ abi, host.version = .ok abi ∧ abi < 1

/-- The kernel takes the rule, or is not asked to. -/
def RuleTaken (host : LandlockHost) (abi : ℤ) (a : PathAccess) : Prop :=
  isAbsolute a.path.toList = true ∧ ∀ top, host.placeOf a.path = some top →
    accessMask a (fsMask abi) = 0 ∨ host.addRuleErr top (accessMask a (fsMask abi)) = none

/-- The kernel has Landlock, and takes the ruleset. -/
structure RulesTaken (host : LandlockHost) (allow : List PathAccess) (abi : ℤ) : Prop where
  version : host.version = .ok abi
  le : 1 ≤ abi
  create : host.createErr = none
  rules : ∀ a ∈ allow, RuleTaken host abi a
  prctl : host.prctlErr = none
  restrict : host.restrictErr = none

/-- What it takes for a wrapped command to be started. -/
structure Starts (host : WrapperHost) (env : DaemonEnv) (cmd : CommandLike)
    (opts : SandboxOptions) : Prop where
  command : cmd.path ≠ ""
  cwd : opts.cwd = "" ∨ isAbsolute opts.cwd.toList = true
  calls : ∀ c ∈ [.noNewPrivs, .rootPrivate, .mountTmp] ++
    (if opts.cwd = "" then [] else [.chdir opts.cwd]), host.callErr c = none
  landlock : Lacks host.landlock ∨ opts.allow = [] ∧ ∃ abi,
    RulesTaken host.landlock (sensibleDefaults env opts.cwd opts.logDir).allow abi
  program : ∃ path, which host env cmd.path = some path ∧ host.execErr path = none

section Wrapped

variable {host : LandlockHost} {k : KernelRuleset} {a : PathAccess} {allow : List PathAccess}
  {rs : Ruleset} {abi : ℤ}

theorem exists_addPathRule_iff :
    (∃ k', addPathRule host k a (fsMask abi) = .ok k') ↔ RuleTaken host abi a := by
  unfold addPathRule RuleTaken
  cases habs : isAbsolute a.path.toList with
  | false => simp
  | true =>
      cases hplace : host.placeOf a.path with
      | none => simp
      | some top =>
          by_cases hzero : accessMask a (fsMask abi) = 0
          · simp [hzero]
          · simp only [hzero, if_false, Option.some.injEq, forall_eq', false_or, true_and,
              Bool.true_eq_false]
            cases host.addRuleErr top (accessMask a (fsMask abi)) <;> simp

theorem exists_addRules_iff :
    (∃ k', addRules host (fsMask abi) k allow = .ok k') ↔ ∀ a ∈ allow, RuleTaken host abi a := by
  induction allow generalizing k with
  | nil => simp [addRules]
  | cons a allow ih =>
      rw [addRules, List.forall_mem_cons, ← exists_addPathRule_iff (k := k)]
      cases addPathRule host k a (fsMask abi) with
      | error e => simp
      | ok k₁ => simp [ih]

theorem exists_install_iff (hversion : host.version = .ok abi) (hle : 1 ≤ abi) :
    (∃ k, install host rs abi = .ok k) ↔ RulesTaken host rs.allow abi := by
  constructor
  · rintro ⟨k, hk⟩
    have hrules := exists_addRules_iff.mp ⟨k, install_ok hk⟩
    unfold install at hk
    split at hk
    · cases hk
    · rename_i hcreate
      split at hk
      · cases hk
      · split at hk
        · cases hk
        · rename_i hprctl
          split at hk
          · cases hk
          · rename_i hrestrict
            exact ⟨hversion, hle, hcreate, hrules, hprctl, hrestrict⟩
  · rintro ⟨-, -, hcreate, hrules, hprctl, hrestrict⟩
    obtain ⟨k, hk⟩ := exists_addRules_iff.mpr hrules
    exact ⟨k, by rw [install, hcreate, hk, hprctl, hrestrict]⟩

/-- **When Landlock lets the wrapper go on.** -/
theorem exists_apply_iff : (∃ r, Landlock.apply host rs = .ok r) ↔
    Lacks host ∨ ∃ abi, RulesTaken host rs.allow abi := by
  cases hversion : host.version with
  | error e =>
      have hnot : ¬ ∃ abi, RulesTaken host rs.allow abi := by
        rintro ⟨abi, htaken⟩
        have := htaken.version
        rw [hversion] at this
        cases this
      by_cases he : e = enosys
      · simp [Landlock.apply, getAbiVersion, hversion, he, Lacks]
      · simp [Landlock.apply, getAbiVersion, hversion, he, Lacks, hnot]
  | ok abi =>
      by_cases hle : 1 ≤ abi
      · have hlacks : ¬ Lacks host := by
          rintro (h | ⟨abi', h, hlt⟩)
          · rw [hversion] at h
            cases h
          · rw [hversion] at h
            obtain rfl := Except.ok.inj h
            omega
        have hsame : (∃ abi', RulesTaken host rs.allow abi') ↔ RulesTaken host rs.allow abi := by
          refine ⟨fun ⟨abi', h⟩ => ?_, fun h => ⟨abi, h⟩⟩
          obtain rfl := Except.ok.inj (hversion.symm.trans h.version)
          exact h
        simp only [apply_ok_iff_of_abi hversion hle, hlacks, false_or, hsame,
          ← @exists_install_iff host rs abi hversion hle]
        simp
      · have hlacks : Lacks host := .inr ⟨abi, hversion, by omega⟩
        simp [Landlock.apply, getAbiVersion, hversion, hle, hlacks]

end Wrapped

section WrappedCommand

variable {codec : Json.Codec} {cmd : CommandLike} {opts : SandboxOptions} {w : WrappedCommand}
  {env : DaemonEnv} {host : WrapperHost}

/-- What the wrapper finds in the environment that `wrap_sandbox` has made. -/
theorem loadConfig_wrapped (hempty : codec.fromText "" = none) {uid gid : UInt32}
    (hw : wrapSandbox codec uid gid cmd opts = .ok w)
    (henv : env.var configEnvVar = lastVal (w.env.filterMap splitEntry) configEnvVar)
    {cfg : Config} : loadConfig codec host env = .ok cfg ↔ cfg = receivedConfig cmd opts ∧
      cmd.path ≠ "" ∧ (opts.cwd = "" ∨ isAbsolute opts.cwd.toList = true) := by
  have hbinary : opts.binary ≠ "" := by
    rintro hb
    rw [wrapSandbox, if_pos hb] at hw
    cases hw
  obtain ⟨w', payload, hw', hpayload, hcfg⟩ := wrapSandbox_received codec uid gid cmd opts hbinary
  obtain rfl := Except.ok.inj (hw.symm.trans hw')
  have hne : payload ≠ "" := by
    rintro rfl
    rw [Config.fromStr, hempty] at hcfg
    cases hcfg
  rw [loadConfig_ok_iff, henv, hpayload]
  constructor
  · rintro ⟨raw, hraw, -, hread, hcommand, hcwd⟩
    obtain rfl := Option.some.inj hraw
    obtain rfl := Option.some.inj (hread.symm.trans hcfg)
    exact ⟨rfl, hcommand, hcwd⟩
  · rintro ⟨rfl, hcommand, hcwd⟩
    exact ⟨payload, rfl, hne, hcfg, hcommand, hcwd⟩

theorem rulesTaken_received_iff {abi : ℤ} :
    RulesTaken host.landlock (rulesetFor env (receivedConfig cmd opts)).allow abi ↔
      opts.allow = [] ∧
        RulesTaken host.landlock (sensibleDefaults env opts.cwd opts.logDir).allow abi := by
  by_cases hallow : opts.allow = []
  · simp [rulesetFor, receivedConfig, requestedConfig, hallow]
  · obtain ⟨a, l, hal⟩ := List.exists_cons_of_ne_nil hallow
    refine ⟨fun h => ?_, fun h => absurd h.1 hallow⟩
    have htaken := h.rules {} (by simp [rulesetFor, receivedConfig, requestedConfig, hal])
    exact absurd htaken.1 (by decide)

theorem exists_execed_iff (hempty : codec.fromText "" = none) {uid gid : UInt32}
    (hw : wrapSandbox codec uid gid cmd opts = .ok w)
    (henv : env.var configEnvVar = lastVal (w.env.filterMap splitEntry) configEnvVar) :
    (∃ img, run codec host env [] = .ok (some img)) ↔
      Starts host (removeVar env configEnvVar) cmd opts := by
  have hlimits : (receivedConfig cmd opts).limits = {} := rfl
  have hrequired : required (receivedConfig cmd opts) =
      [.noNewPrivs, .rootPrivate, .mountTmp] ++
        (if opts.cwd = "" then [] else [.chdir opts.cwd]) := by
    rw [required, hlimits, show limitSettings {} = [] by decide, List.map_nil, List.append_nil]
    rfl
  have happly := @exists_apply_iff host.landlock
    (rulesetFor (removeVar env configEnvVar) (receivedConfig cmd opts))
  simp only [rulesTaken_received_iff, exists_and_left] at happly
  constructor
  · rintro ⟨img, h⟩
    obtain ⟨-, cfg, hload, w₁, hconfine, himage⟩ := run_execed_iff.mp h
    obtain ⟨rfl, hcommand, hcwd⟩ := (loadConfig_wrapped hempty hw henv).mp hload
    obtain ⟨hcalls, k, hk, rfl⟩ := confine_ok_iff.mp hconfine
    obtain ⟨path, hpath, hexec, -⟩ := execImage_ok_iff.mp himage
    exact ⟨hcommand, hcwd, hrequired ▸ hcalls, happly.mp ⟨k, hk⟩, path, hpath, hexec⟩
  · rintro ⟨hcommand, hcwd, hcalls, hlandlock, path, hpath, hexec⟩
    obtain ⟨k, hk⟩ := happly.mpr hlandlock
    have hload : loadConfig codec host env = .ok (receivedConfig cmd opts) :=
      (loadConfig_wrapped hempty hw henv).mpr ⟨rfl, hcommand, hcwd⟩
    rw [← hrequired] at hcalls
    have hconfine : confine host (receivedConfig cmd opts) { env := removeVar env configEnvVar } =
        .ok ⟨removeVar env configEnvVar, [] ++ effective host (receivedConfig cmd opts), k⟩ :=
      confine_ok_iff.mpr ⟨hcalls, k, hk, rfl⟩
    exact ⟨_, run_execed_iff.mpr ⟨rfl, _, hload, _, hconfine,
      execImage_ok_iff.mpr ⟨path, hpath, hexec, rfl⟩⟩⟩

end WrappedCommand

/-- **Wrapped commands**: with the environment that `wrap_sandbox` has made, the wrapper starts the
daemon's command and no other; it does so exactly where its calls succeed, and where the kernel has
Landlock only if no path was allowed: each one arrives blank and is refused. -/
theorem wrapped_execed_iff (codec : Json.Codec) (hempty : codec.fromText "" = none)
    (uid gid : UInt32) (cmd : CommandLike) (opts : SandboxOptions) (w : WrappedCommand)
    (hw : wrapSandbox codec uid gid cmd opts = .ok w) (host : WrapperHost) (env : DaemonEnv)
    (henv : env.var configEnvVar = lastVal (w.env.filterMap splitEntry) configEnvVar) :
    ((∃ img, run codec host env [] = .ok (some img)) ↔
      Starts host (removeVar env configEnvVar) cmd opts) ∧
    ∀ img, run codec host env [] = .ok (some img) → img.args = cmd.args ∧
      which host (removeVar env configEnvVar) cmd.path = some img.program := by
  refine ⟨exists_execed_iff hempty hw henv, fun img h => ?_⟩
  obtain ⟨-, cfg, hload, w₁, hconfine, himage⟩ := run_execed_iff.mp h
  obtain ⟨rfl, -⟩ := (loadConfig_wrapped hempty hw henv).mp hload
  obtain ⟨-, k, -, rfl⟩ := confine_ok_iff.mp hconfine
  obtain ⟨path, hpath, -, rfl⟩ := execImage_ok_iff.mp himage
  exact ⟨rfl, hpath⟩

/-! A command in `/srv`, on a kernel with Landlock where nothing fails. -/

def srvOptions : SandboxOptions where
  binary := "/usr/bin/unitpm"
  cwd := "/srv"
  limits := { memoryBytes := 1048576 }

def srvHost : WrapperHost where
  callErr _ := none
  landlock := { version := .ok 3, canonicalize := some, openPath := fun _ => some [] }
  isFile p := p == "/bin/sleep"
  configErr _ := "expected value at line 1 column 1"
  execErr _ := none

def srvPayload : String := Json.compact.toText (sandboxConfigJson sleepLike srvOptions)

def srvEnv : DaemonEnv where
  vars := [("PATH", "/usr/bin"), (configEnvVar, srvPayload)]
  nodup := by decide
  names := by
    intro p hp
    rcases List.mem_cons.mp hp with rfl | hp
    · decide
    · obtain rfl := List.mem_singleton.mp hp
      decide

/-- The command as `wrap_sandbox` returns it. -/
def srvWrapped : WrappedCommand where
  binary := "/usr/bin/unitpm"
  args := ["/usr/bin/unitpm", wrapperSubcommand]
  env := [envEntry (configEnvVar, srvPayload)]
  sysProcAttr := ⟨sandboxCloneFlags, false, true, [⟨0, 1000, 1⟩], [⟨0, 1000, 1⟩]⟩

theorem compact_empty : Json.compact.fromText "" = none := rfl

theorem srvEnv_var : srvEnv.var configEnvVar =
    lastVal (srvWrapped.env.filterMap splitEntry) configEnvVar := by
  rw [srvWrapped, List.filterMap_cons_some (splitEntry_envEntry srvPayload (by decide))]
  rfl

theorem starts_srv : Starts srvHost (removeVar srvEnv configEnvVar) sleepLike srvOptions where
  command := by decide
  cwd := .inr (by decide)
  calls _ _ := rfl
  landlock := by
    have habs : ∀ a ∈ (sensibleDefaults (removeVar srvEnv configEnvVar) "/srv" "").allow,
        isAbsolute a.path.toList = true := by decide
    exact .inr ⟨rfl, 3, rfl, by decide, rfl, fun a ha => ⟨habs a ha, fun _ _ => .inr rfl⟩, rfl, rfl⟩
  program := ⟨"/bin/sleep", by decide, rfl⟩

theorem execed_confined_srv : ∃ img, run Json.compact srvHost srvEnv [] = .ok (some img) ∧
    ∃ raw cfg, srvEnv.var configEnvVar = some raw ∧ Config.fromStr Json.compact raw = some cfg ∧
      Confined srvHost srvEnv cfg img := by
  have hw : wrapSandbox Json.compact 1000 1000 sleepLike srvOptions = .ok srvWrapped := rfl
  obtain ⟨img, h⟩ := (exists_execed_iff compact_empty hw srvEnv_var).mpr starts_srv
  exact ⟨img, h, execed_confined Json.compact srvHost srvEnv [] img h⟩

theorem wrapped_execed_srv :
    wrapSandbox Json.compact 1000 1000 sleepLike srvOptions = .ok srvWrapped ∧
    ((∃ img, run Json.compact srvHost srvEnv [] = .ok (some img)) ↔
      Starts srvHost (removeVar srvEnv configEnvVar) sleepLike srvOptions) ∧
    ∀ img, run Json.compact srvHost srvEnv [] = .ok (some img) → img.args = sleepLike.args ∧
      which srvHost (removeVar srvEnv configEnvVar) sleepLike.path = some img.program :=
  ⟨rfl, wrapped_execed_iff Json.compact compact_empty 1000 1000 sleepLike srvOptions srvWrapped rfl
    srvHost srvEnv srvEnv_var⟩

end Unitpm.ExecSandbox
