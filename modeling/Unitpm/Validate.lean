import Unitpm.Spawn

/-! # Which specs a start request may carry

`validate_spec` and its helpers of `internal/daemon/handlers/service.rs`, and
`policy::authorize_start`.  A validation is a list of checks made in order; the first one that
fails is the answer (`firstError`). -/

namespace Unitpm

open Rust.Str
open Rust.Path (OsStr)

/-! ### Checks -/

def rejectIf (b : Prop) [Decidable b] (msg : String) : Except String Unit :=
  if b then .error msg else .ok ()

/-- Makes the checks in order. -/
def firstError : List (Except String Unit) → Except String Unit
  | [] => .ok ()
  | .error e :: _ => .error e
  | .ok _ :: l => firstError l

@[simp] theorem rejectIf_ok_iff {b : Prop} [Decidable b] {msg : String} :
    rejectIf b msg = .ok () ↔ ¬ b := by
  unfold rejectIf
  split <;> simp_all

theorem firstError_ok_iff {l : List (Except String Unit)} :
    firstError l = .ok () ↔ ∀ c ∈ l, c = .ok () := by
  induction l with
  | nil => simp [firstError]
  | cons c l ih => cases c <;> simp [firstError, ih]

/-! ### Limits -/

def nameMax : ℕ := 128
def namespaceMax : ℕ := 64
def execMax : ℕ := 4096
def argMax : ℕ := 4096
def argsLimit : ℕ := 256
def cronMax : ℕ := 256
def envKeyMax : ℕ := 256
def envValMax : ℕ := 8192
def envLimit : ℕ := 128
def logPathMax : ℕ := 4096
def cwdMax : ℕ := 4096
def envFileMax : ℕ := 4096

/-! ### Labels and paths -/

/-- The shape both label tests have: not empty, short enough, an ASCII letter or digit first. -/
def labelValid (max : ℕ) (allowed : Char → Bool) (s : String) : Bool :=
  s ≠ "" && s.utf8ByteSize ≤ max && s.toList.head?.any Char.isAlphanum && s.toList.all allowed

/-- `name_regex_valid`. -/
def nameRegexValid (s : String) : Bool :=
  labelValid nameMax (fun c => c.isAlphanum || " ._:#@!,()+=&-".toList.contains c) s

/-- `namespace_regex_valid`. -/
def namespaceRegexValid (s : String) : Bool :=
  labelValid namespaceMax (fun c => c.isAlphanum || "._-".toList.contains c) s

/-- `path_has_parent_traversal`: only the first component is looked at. -/
def pathHasParentTraversal (p : String) : Bool :=
  (Rust.Path.components p.toList).head? == some .parentDir

/-- `is_absolute_path`. -/
def isAbsolutePath (p : String) : Bool := Rust.Path.isAbsolute p.toList

/-! ### `validate_spec` -/

def validateExec (e : AppExec) : Except String Unit :=
  firstError
    ([rejectIf (e.kind = "") "ERR_BAD_REQUEST: exec type is required"] ++
      (if e.kind = "command" then
        [rejectIf (orEmpty e.command = "") "ERR_BAD_REQUEST: command is required",
          rejectIf ((orEmpty e.command).utf8ByteSize > execMax) "ERR_LIMITS: command too long"]
      else if e.kind = "entry" then
        [rejectIf (orEmpty e.entry = "") "ERR_BAD_REQUEST: entry file is required"]
      else [.error "ERR_BAD_REQUEST: invalid exec type"]) ++
      [rejectIf ((e.args.getD []).length > argsLimit) "ERR_LIMITS: too many arguments"] ++
      (e.args.getD []).map fun a =>
        rejectIf (a.utf8ByteSize > argMax) "ERR_LIMITS: argument too long")

/-- The log path checks, for `dir`, `stdout` and `stderr` alike. -/
def validateLogPath (p : String) : Except String Unit :=
  if p = "" then .ok ()
  else firstError
    [rejectIf (p.utf8ByteSize > logPathMax) "ERR_LIMITS: log path too long",
      rejectIf (pathHasParentTraversal p) "ERR_BAD_REQUEST: log paths must not contain '..'"]

def validateLogs (l : AppLogs) : Except String Unit :=
  firstError
    [rejectIf ((orEmpty l.dir).utf8ByteSize > logPathMax) "ERR_LIMITS: log dir too long",
      rejectIf (l.mode ∉ ["", "inherit", "file"]) "ERR_BAD_REQUEST: invalid logs mode",
      rejectIf (orEmpty l.format ∉ ["", "plain", "json"]) "ERR_BAD_REQUEST: invalid logs format",
      rejectIf (orEmpty l.timestamp ∉ ["", "none", "rfc3339", "unix"])
        "ERR_BAD_REQUEST: invalid logs timestamp",
      validateLogPath (orEmpty l.dir),
      validateLogPath (orEmpty l.stdout),
      validateLogPath (orEmpty l.stderr),
      rejectIf (isAbsolutePath (orEmpty l.stdout))
        "ERR_BAD_REQUEST: logs.stdout must be a relative filename",
      rejectIf (isAbsolutePath (orEmpty l.stderr))
        "ERR_BAD_REQUEST: logs.stderr must be a relative filename"]

def validateCron (cron : String) : Except String Unit :=
  firstError
    [rejectIf (cron.utf8ByteSize > cronMax) "ERR_LIMITS: cron spec too long",
      rejectIf ('\n' ∈ cron.toList ∨ '\r' ∈ cron.toList) "ERR_BAD_REQUEST: invalid cron spec"]

def validateEnv (env : List (String × String)) : Except String Unit :=
  firstError
    (rejectIf (env.length > envLimit) "ERR_LIMITS: too many environment variables" ::
      env.flatMap fun p =>
        [rejectIf (p.1.utf8ByteSize > envKeyMax) "ERR_LIMITS: env key too long",
          rejectIf (p.2.utf8ByteSize > envValMax) "ERR_LIMITS: env value too long"])

def allowedStopSignals : List String :=
  ["SIGTERM", "SIGINT", "SIGHUP", "SIGQUIT", "SIGUSR1", "SIGUSR2"]

/-- `validate_stop`. -/
def validateStop (s : AppStop) : Except String Unit :=
  firstError
    [rejectIf (orEmpty s.signal ≠ "" ∧ orEmpty s.signal ∉ allowedStopSignals)
        ("ERR_BAD_REQUEST: invalid stop signal; allowed: " ++
          "SIGTERM, SIGINT, SIGHUP, SIGQUIT, SIGUSR1, SIGUSR2"),
      match s.timeoutMs with
      | none => .ok ()
      | some t => rejectIf (t ≠ 0 ∧ ¬ (1000 ≤ t ∧ t ≤ 300000))
          "ERR_LIMITS: stop.timeout_ms must be between 1000 and 300000 (1s to 5min)"]

/-- `validate_resources`. -/
def validateResources (r : AppResources) : Except String Unit :=
  let ofLimit (l : Option ℤ) (checks : ℤ → List (Except String Unit)) :=
    match l with
    | none => []
    | some n => checks n
  firstError
    (ofLimit r.memoryMaxBytes (fun m =>
      [rejectIf (m < 0) "ERR_BAD_REQUEST: resources.memory_max_bytes must be >= 0",
        rejectIf (m ≠ 0 ∧ m < 1024 * 1024)
          "ERR_LIMITS: resources.memory_max_bytes must be >= 1 MiB when set"]) ++
    ofLimit r.cpuMaxPercent (fun c =>
      [rejectIf (¬ (0 ≤ c ∧ c ≤ 10000))
        "ERR_LIMITS: resources.cpu_max_percent must be between 0 and 10000"]) ++
    ofLimit r.tasksMax (fun t =>
      [rejectIf (t < 0) "ERR_BAD_REQUEST: resources.tasks_max must be >= 0"]))

/-- A section that is checked only when it is there. -/
def validateOpt {α : Type} (o : Option α) (check : α → Except String Unit) : Except String Unit :=
  match o with
  | none => .ok ()
  | some a => check a

/-- `validate_spec`. -/
def validateSpec (s : AppSpec) : Except String Unit :=
  firstError
    [validateExec s.exec,
      rejectIf (s.name ≠ "" ∧ ¬ nameRegexValid s.name) "ERR_BAD_REQUEST: invalid name format",
      rejectIf (orEmpty s.ns ≠ "" ∧ ¬ namespaceRegexValid (orEmpty s.ns))
        "ERR_BAD_REQUEST: invalid namespace format",
      validateOpt s.logs validateLogs,
      validateOpt s.cron validateCron,
      validateOpt s.env (fun m => validateEnv m.entries),
      validateOpt s.stop validateStop,
      validateOpt s.resources validateResources]

/-! ### `authorize_start` -/

inductive PolicyError where
  | shellNotAllowed
  | dynamicRequiresSystem
  | reservedMode (mode : String)
  | invalidMode
deriving DecidableEq

/-- `Display for PolicyError`. -/
def PolicyError.toText : PolicyError → String
  | shellNotAllowed => "ERR_UNSUPPORTED: shell execution not allowed in system daemon"
  | dynamicRequiresSystem => "ERR_UNSUPPORTED: run_as=dynamic requires system daemon"
  | reservedMode m =>
      "ERR_UNSUPPORTED: run_as=" ++ m ++ " is not implemented yet; use 'dynamic' or 'sandbox'"
  | invalidMode => "ERR_BAD_REQUEST: invalid run_as mode"

/-- `policy::authorize_start`; the caller's identity is not looked at. -/
def authorizeStart (s : AppSpec) (daemonPrivileged : Bool) : Except PolicyError Unit :=
  if s.exec.shell && daemonPrivileged then .error .shellNotAllowed
  else match s.runAs with
    | none => .ok ()
    | some r =>
        if r.mode = "self" then .ok ()
        else if r.mode = "dynamic" then
          if daemonPrivileged then .ok () else .error .dynamicRequiresSystem
        else if r.mode = "sandbox" then .ok ()
        else if r.mode = "app_user" ∨ r.mode = "explicit_user" then .error (.reservedMode r.mode)
        else .error .invalidMode

/-- Both gates of a start request. -/
def Accepted (privileged : Bool) (s : AppSpec) : Prop :=
  validateSpec s = .ok () ∧ authorizeStart s privileged = .ok ()

instance (privileged : Bool) (s : AppSpec) : Decidable (Accepted privileged s) :=
  inferInstanceAs (Decidable (_ ∧ _))

/-! ### The paths a request names -/

/-- The caller, as `SO_PEERCRED` gives it. -/
structure Identity where
  uid : String

/-- `validate_env_file`. -/
def validateEnvFile (h : Host) (path : String) (identity : Identity) : Except String String :=
  if path.utf8ByteSize > envFileMax then .error "ERR_LIMITS: env_file path too long"
  else if pathHasParentTraversal path then .error "ERR_BAD_REQUEST: env_file must not contain '..'"
  else if ¬ isAbsolutePath path then .ok path
  else match h.canonicalize (OsStr.ofString path) with
    | none => .error "ERR_BAD_REQUEST: env_file not accessible"
    | some resolved =>
        match h.metadata resolved with
        | none => .error "ERR_BAD_REQUEST: env_file not accessible"
        | some info =>
            if ¬ info.isFile then .error "ERR_BAD_REQUEST: env_file must be a regular file"
            else if identity.uid = "" then .ok resolved.toStringLossy
            else match parseUnsigned (2 ^ 32 - 1) identity.uid.toList with
              | none => .error "ERR_BAD_REQUEST: env_file: caller identity invalid"
              | some callerUid =>
                  if callerUid = 0 ∨ info.uid = callerUid then .ok resolved.toStringLossy
                  else .error "ERR_BAD_REQUEST: env_file not owned by caller"

def restrictedDirs : List String := ["/etc", "/proc", "/sys", "/boot", "/dev", "/run"]

/-- `validate_cwd`. -/
def validateCwd (h : Host) (cwd : String) : Except String String :=
  if cwd.utf8ByteSize > cwdMax then .error "ERR_LIMITS: cwd too long"
  else
    let abs := if isAbsolutePath cwd then some (OsStr.ofString cwd)
      else h.canonicalize (OsStr.ofString cwd)
    match abs.bind h.canonicalize with
    | none => .error "ERR_BAD_REQUEST: invalid cwd"
    | some resolved =>
        if restrictedDirs.any fun r =>
            (Rust.Path.components (OsStr.ofString r)).isPrefixOf
              (Rust.Path.components resolved) then
          .error ("ERR_BAD_REQUEST: cwd is a restricted system directory; " ++
            "use --cwd to set a different path")
        else if ¬ h.canOpen resolved then
          .error ("ERR_BAD_REQUEST: cwd is not accessible to the daemon user; pass --cwd to " ++
            "a directory readable by the daemon (e.g. /var/lib/glyndor/unitpm or /tmp)")
        else match h.metadata resolved with
          | none => .error "ERR_BAD_REQUEST: invalid cwd"
          | some info =>
              if info.isDir then .ok resolved.toStringLossy
              else .error "ERR_BAD_REQUEST: invalid cwd"

/-! ### What is accepted -/

theorem validateSpec_ok_iff {s : AppSpec} :
    validateSpec s = .ok () ↔
      validateExec s.exec = .ok () ∧ (s.name = "" ∨ nameRegexValid s.name = true) ∧
      (orEmpty s.ns = "" ∨ namespaceRegexValid (orEmpty s.ns) = true) ∧
      validateOpt s.logs validateLogs = .ok () ∧ validateOpt s.cron validateCron = .ok () ∧
      validateOpt s.env (fun m => validateEnv m.entries) = .ok () ∧
      validateOpt s.stop validateStop = .ok () ∧
      validateOpt s.resources validateResources = .ok () := by
  simp only [validateSpec, firstError_ok_iff, List.forall_mem_cons, rejectIf_ok_iff, not_and,
    not_not, ← or_iff_not_imp_left, ne_eq]
  simp

theorem not_shell_of_accepted {s : AppSpec} (h : Accepted true s) : s.exec.shell = false := by
  have := h.2
  unfold authorizeStart at this
  split at this
  · cases this
  · simp_all

/-- The gates look neither at the id, the working directory, the env file nor the
disabled flag. -/
theorem accepted_congr {privileged : Bool} {s t : AppSpec} (he : t.exec = s.exec)
    (hn : t.name = s.name) (hns : t.ns = s.ns) (hl : t.logs = s.logs) (hc : t.cron = s.cron)
    (hv : t.env = s.env) (hs : t.stop = s.stop) (hr : t.resources = s.resources)
    (ha : t.runAs = s.runAs) : Accepted privileged t ↔ Accepted privileged s := by
  simp only [Accepted, validateSpec, authorizeStart, he, hn, hns, hl, hc, hv, hs, hr, ha]

/-! ### What is accepted can be resolved -/

/-- The words of the runtime. -/
def AppExec.runtimeWords (e : AppExec) : List (List Char) :=
  splitWhitespace (orEmpty e.runtime).toList

theorem nonEmpty_eq_some {o : Option String} (h : orEmpty o ≠ "") :
    nonEmpty o = some (orEmpty o) := by
  cases o with
  | none => exact absurd rfl h
  | some t => simpa [nonEmpty, orEmpty] using h

theorem nonEmpty_eq_none {o : Option String} (h : orEmpty o = "") : nonEmpty o = none := by
  cases o with
  | none => rfl
  | some t =>
      obtain rfl : t = "" := h
      rfl

/-- What the checks leave of the shape: one of the two kinds, with what it names, and not too many
arguments. -/
theorem exec_of_validateSpec {s : AppSpec} (hv : validateSpec s = .ok ()) :
    (s.exec.kind = "command" ∧ orEmpty s.exec.command ≠ "" ∨
      s.exec.kind = "entry" ∧ orEmpty s.exec.entry ≠ "") ∧
      (s.exec.args.getD []).length ≤ argsLimit := by
  have he := firstError_ok_iff.mp (validateSpec_ok_iff.mp hv).1
  simp only [List.mem_append] at he
  have hargs := he _ (.inl (.inr (List.mem_singleton.mpr rfl)))
  refine ⟨?_, Nat.not_lt.mp (rejectIf_ok_iff.mp hargs)⟩
  have hkind := fun c hc => he c (.inl (.inl (.inr hc)))
  split_ifs at hkind with h1 h2
  · exact .inl ⟨h1, rejectIf_ok_iff.mp (hkind _ List.mem_cons_self)⟩
  · exact .inr ⟨h2, rejectIf_ok_iff.mp (hkind _ List.mem_cons_self)⟩
  · cases hkind _ (List.mem_singleton.mpr rfl)

theorem resolveCommand_command {s : AppSpec} (hk : s.exec.kind = "command")
    (hc : orEmpty s.exec.command ≠ "") (ha : (s.exec.args.getD []).length ≤ argsLimit) :
    resolveCommand s = .ok (orEmpty s.exec.command, s.exec.args.getD []) := by
  rw [resolveCommand, if_pos hk, nonEmpty_eq_some hc]
  exact if_neg (Nat.not_lt.mpr ha)

/-- The command line of an `entry`: the words of the runtime and the entry come on top of the
arguments. -/
theorem resolveCommand_entry {s : AppSpec} (hk : s.exec.kind = "entry")
    (he : orEmpty s.exec.entry ≠ "") :
    (∃ r, resolveCommand s = .ok r) ↔ s.exec.runtimeWords ≠ [] ∧
      s.exec.runtimeWords.length + (s.exec.args.getD []).length ≤ maxArgCount := by
  rw [resolveCommand, if_neg (by rw [hk]; decide), if_pos hk, nonEmpty_eq_some he]
  unfold AppExec.runtimeWords
  by_cases hr : orEmpty s.exec.runtime = ""
  · rw [nonEmpty_eq_none hr, hr]
    simp [splitWhitespace]
  · rw [nonEmpty_eq_some hr]
    simp only
    cases splitWhitespace (orEmpty s.exec.runtime).toList with
    | nil => simp
    | cons bin rt =>
        simp only [List.map_cons, List.length_append, List.length_map, List.length_cons,
          List.length_nil]
        split_ifs with hlen
        · simp only [exists_false, false_iff, not_and]
          omega
        · simp only [Except.ok.injEq, exists_eq', ne_eq, reduceCtorEq, not_false_eq_true,
            true_and, true_iff]
          omega

/-- **Accepted and resolved.**  An accepted spec has a command line unless it is an `entry` whose
runtime has no word, or whose runtime, entry and arguments are too many together. -/
theorem resolveCommand_of_accepted_iff (s : AppSpec) (hv : validateSpec s = .ok ()) :
    (∃ r, resolveCommand s = .ok r) ↔ (s.exec.kind = "entry" → s.exec.runtimeWords ≠ [] ∧
      s.exec.runtimeWords.length + (s.exec.args.getD []).length ≤ maxArgCount) := by
  obtain ⟨⟨hk, hc⟩ | ⟨hk, he⟩, ha⟩ := exec_of_validateSpec hv
  · simp only [resolveCommand_command hk hc ha, Except.ok.injEq, exists_eq', true_iff]
    intro hk'
    rw [hk] at hk'
    exact absurd hk' (by decide)
  · rw [resolveCommand_entry hk he, forall_prop_of_true hk]

/-- An entry file and how to run it. -/
def entrySpec (runtime : Option String) : AppSpec where
  id := "0191d3a0-0000-7000-8000-000000000001"
  name := "web"
  exec := { kind := "entry", entry := some "app.js", runtime := runtime }

theorem resolveCommand_of_accepted_node : ∃ r, resolveCommand (entrySpec (some "node")) = .ok r :=
  (resolveCommand_of_accepted_iff (entrySpec (some "node")) (by decide +kernel)).mpr
    fun _ => by decide +kernel

/-- An entry without a runtime is accepted and cannot be spawned. -/
theorem accepted_entry_unresolved : validateSpec (entrySpec none) = .ok () ∧
    resolveCommand (entrySpec none) = .error .entryAndRuntimeRequired := by
  decide +kernel

end Unitpm
