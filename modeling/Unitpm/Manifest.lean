import Unitpm.Lib.Str
import Unitpm.Protocol

/-! # Manifests

`internal/manifest`: what `unitpm.yml` says once it is decoded, the checks of `parse`, and the
specs that `to_app_specs` makes of it.  A command line is split by a small state machine that knows
single and double quotes (`tokenize`). -/

namespace Unitpm.Manifest

open Rust.Str

/-! ### Files -/

structure RestartConfig where
  policy : String := ""
  maxRestarts : ℤ := 0
  delayMs : ℤ := 0
  backoff : String := ""
  stopOnExit : List ℤ := []

structure LogsConfig where
  dir : String := ""
  stdout : String := ""
  stderr : String := ""
  format : String := ""
  timestamp : String := ""

/-- Configuration for a single application within a manifest. -/
structure AppConfig where
  name : String := ""
  ns : String := ""
  command : String := ""
  entry : String := ""
  runtime : String := ""
  cwd : String := ""
  env : BTreeMap := .empty
  instances : ℤ := 0
  restart : RestartConfig := {}
  logs : LogsConfig := {}

structure File where
  ns : String := ""
  apps : List AppConfig := []

inductive ManifestError where
  | noApps
  | emptyAppName
  | bothCommandAndEntry (name : String)
  | neitherCommandNorEntry (name : String)
  | invalidCommand (name : String)
deriving DecidableEq

def ManifestError.toText : ManifestError → String
  | .noApps => "manifest has no apps"
  | .emptyAppName => "manifest app has empty name"
  | .bothCommandAndEntry name => "manifest app " ++ name ++ " has both command and entry"
  | .neitherCommandNorEntry name => "manifest app " ++ name ++ " must specify command or entry"
  | .invalidCommand name => "invalid command for app " ++ name

/-- The checks of `validate` on one app. -/
def validateApp (app : AppConfig) : Except ManifestError Unit :=
  if trim app.name.toList = [] then .error .emptyAppName
  else if app.command ≠ "" ∧ app.entry ≠ "" then .error (.bothCommandAndEntry app.name)
  else if app.command = "" ∧ app.entry = "" then .error (.neitherCommandNorEntry app.name)
  else .ok ()

/-- `validate`. -/
def validate (file : File) : Except ManifestError Unit :=
  if file.apps = [] then .error .noApps else file.apps.forM validateApp

/-! ### Command lines -/

inductive TokenizeError where
  | unclosedQuote
  | trailingBackslash
  | invalidEscape (c : Char)
deriving DecidableEq

inductive TokenState where
  | normal
  | single
  | double
deriving DecidableEq

/-- `cur`, if there is anything in it, is one more argument. -/
def pushToken (args : List String) (cur : List Char) : List String :=
  if cur = [] then args else args ++ [String.ofList cur]

/-- The loop of `tokenize`. -/
def tokenizeFrom : TokenState → List String → List Char → List Char →
    Except TokenizeError (List String)
  | .normal, args, cur, [] => .ok (pushToken args cur)
  | .single, _, _, [] => .error .unclosedQuote
  | .double, _, _, [] => .error .unclosedQuote
  | .normal, args, cur, r :: l =>
      if isWhitespace r then tokenizeFrom .normal (pushToken args cur) [] l
      else if r = '\'' then tokenizeFrom .single args cur l
      else if r = '"' then tokenizeFrom .double args cur l
      else tokenizeFrom .normal args (cur ++ [r]) l
  | .single, args, cur, r :: l =>
      if r = '\'' then tokenizeFrom .normal args cur l
      else tokenizeFrom .single args (cur ++ [r]) l
  | .double, args, cur, '"' :: l => tokenizeFrom .normal args cur l
  | .double, _, _, ['\\'] => .error .trailingBackslash
  | .double, args, cur, '\\' :: next :: l =>
      if next = '"' ∨ next = '\\' then tokenizeFrom .double args (cur ++ [next]) l
      else .error (.invalidEscape next)
  | .double, args, cur, r :: l => tokenizeFrom .double args (cur ++ [r]) l

/-- `tokenize`. -/
def tokenize (input : String) : Except TokenizeError (List String) :=
  tokenizeFrom .normal [] [] input.toList

/-- `tokenize_command`. -/
def tokenizeCommand (cmd : String) : Except TokenizeError (List String) :=
  match tokenize cmd with
  | .error e => .error e
  | .ok [] => .ok ((splitWhitespace cmd.toList).map String.ofList)
  | .ok parts => .ok parts

/-- Pieces that the loop takes for these words, joined by blanks: it finds the words that are not
empty. -/
theorem tokenizeFrom_joinWith_map {f : String → List Char} {ws : List String} (args : List String)
    (h : ∀ w ∈ ws, ∀ args l,
      tokenizeFrom .normal args [] (f w ++ l) = tokenizeFrom .normal args w.toList l) :
    tokenizeFrom .normal args [] (joinWith ' ' (ws.map f)) =
      .ok (args ++ ws.filter fun w => w ≠ "") := by
  have hpush : ∀ args w ws, pushToken args (String.toList w) ++ List.filter (fun w => w ≠ "") ws =
      args ++ (w :: ws).filter fun w => w ≠ "" := by
    intro args w ws
    by_cases hw : w = "" <;> simp [pushToken, hw]
  induction ws generalizing args with
  | nil => simp [joinWith, tokenizeFrom, pushToken]
  | cons w ws ih =>
      have hword := h w (by simp)
      cases ws with
      | nil =>
          have hnil := hword args []
          rw [List.append_nil, tokenizeFrom] at hnil
          rw [← hpush]
          simpa [joinWith] using hnil
      | cons v ws =>
          rw [List.map_cons, List.map_cons, joinWith_cons_cons, hword, tokenizeFrom,
            if_pos (by decide), ← List.map_cons, ih _ fun x hx => h x (by simp [hx]), hpush]

/-! ### Specs -/

/-- An empty string counts as none. -/
def nonEmptyStr (s : String) : Option String := if s = "" then none else some s

/-- `build_logs`. -/
def buildLogs (logs : LogsConfig) : Option AppLogs :=
  if logs.dir ≠ "" ∨ logs.stdout ≠ "" ∨ logs.stderr ≠ "" ∨ logs.format ≠ "" ∨ logs.timestamp ≠ ""
  then some
    { mode := ""
      dir := nonEmptyStr logs.dir
      stdout := nonEmptyStr logs.stdout
      stderr := nonEmptyStr logs.stderr
      format := nonEmptyStr logs.format
      timestamp := nonEmptyStr logs.timestamp }
  else none

/-- `build_restart`. -/
def buildRestart (app : AppConfig) : Option AppRestart :=
  if app.restart.policy ≠ "" then some
    { policy := app.restart.policy
      maxRetries := if app.restart.maxRestarts = 0 then none else some app.restart.maxRestarts
      backoffMs := if app.restart.delayMs = 0 then none else some app.restart.delayMs
      backoffType := nonEmptyStr app.restart.backoff
      stopOnExit := if app.restart.stopOnExit = [] then none else some app.restart.stopOnExit }
  else none

/-- The `exec` section of an app. -/
def buildExec (app : AppConfig) : Except ManifestError AppExec :=
  if app.command ≠ "" then
    match tokenizeCommand app.command with
    | .error _ => .error (.invalidCommand app.name)
    | .ok [] => .error (.invalidCommand app.name)
    | .ok (cmd :: args) => .ok { kind := "command", command := some cmd, args := some args }
  else .ok { kind := "entry", entry := some app.entry, runtime := nonEmptyStr app.runtime }

/-- `to_app_spec`. -/
def toAppSpec (app : AppConfig) (defaultNs : String) : Except ManifestError AppSpec :=
  match buildExec app with
  | .error e => .error e
  | .ok exec => .ok
      { version := 1
        id := ""
        name := app.name
        ns := some (if app.ns ≠ "" then app.ns
          else if defaultNs ≠ "" then defaultNs else defaultNamespace)
        exec := exec
        cwd := nonEmptyStr app.cwd
        env := if app.env.entries = [] then none else some app.env
        logs := buildLogs app.logs
        restart := buildRestart app }

/-- The loop of `to_app_specs`: an app is there as often as it has instances. -/
def toAppSpecsFrom (ns : String) : List AppConfig → Except ManifestError (List AppSpec)
  | [] => .ok []
  | app :: apps =>
      match toAppSpec app ns with
      | .error e => .error e
      | .ok base =>
          match toAppSpecsFrom ns apps with
          | .error e => .error e
          | .ok specs => .ok (List.replicate (max app.instances 1).toNat base ++ specs)

/-- `to_app_specs`. -/
def toAppSpecs (file : File) : Except ManifestError (List AppSpec) :=
  toAppSpecsFrom file.ns file.apps

/-! ### What the specs have -/

theorem toAppSpec_exec {app : AppConfig} {ns : String} {s : AppSpec}
    (h : toAppSpec app ns = .ok s) : s.exec.command.isSome = true ∨ s.exec.entry.isSome = true := by
  unfold toAppSpec at h
  split at h
  · cases h
  · rename_i exec hexec
    rw [← Except.ok.inj h]
    unfold buildExec at hexec
    split at hexec
    · split at hexec
      · cases hexec
      · cases hexec
      · rw [← Except.ok.inj hexec]
        exact .inl rfl
    · rw [← Except.ok.inj hexec]
      exact .inr rfl

/-- Every spec of a manifest has something to run. -/
theorem toAppSpecs_exec {file : File} {specs : List AppSpec} (h : toAppSpecs file = .ok specs) :
    ∀ s ∈ specs, s.exec.command.isSome = true ∨ s.exec.entry.isSome = true := by
  unfold toAppSpecs at h
  generalize file.apps = apps at h
  induction apps generalizing specs with
  | nil =>
      obtain rfl := Except.ok.inj h
      simp
  | cons app apps ih =>
      rw [toAppSpecsFrom] at h
      split at h
      · cases h
      · rename_i base hbase
        split at h
        · cases h
        · rename_i rest hrest
          obtain rfl := Except.ok.inj h
          intro s hs
          rcases List.mem_append.mp hs with hs | hs
          · rw [List.eq_of_mem_replicate hs]
            exact toAppSpec_exec hbase
          · exact ih hrest s hs

end Unitpm.Manifest
