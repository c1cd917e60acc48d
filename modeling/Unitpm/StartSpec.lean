import Unitpm.Isolation
import Unitpm.Lexer
import Unitpm.MemoryMax
import Unitpm.Ordinals
import Unitpm.ShellQuote

/-! # From the command line to the command

`unitpm start` from its arguments to the processes: `exec.rs` decides what the tokens of the command
are, `finalize.rs` makes the spec, and the loop of `run` has the daemon start one instance after the
other.  On the way the command is a list of tokens, a spec, a spec with its paths resolved, and the
command that the daemon spawns.

`run_launches`: however the command ends, the daemon has just the first instances more than before,
and each of them executes the words of the command line (`SpecParser.command`), directly or by way
of the shell. -/

namespace Unitpm.Start

open Rust.Str Overlay

/-! ### The shape of the command -/

/-- The extension of a token, `""` if it has none. -/
def fileExtension (token : String) : String :=
  String.ofList ((Rust.Path.extension token.toList).getD [])

def commandExec (shell : Bool) (first : String) (args : Option (List String)) : AppExec :=
  { kind := "command", command := some first, args := args, shell := shell }

def entryExec (shell : Bool) (entry runtime : String) : AppExec :=
  { kind := "entry", entry := some entry, runtime := some runtime, shell := shell }

/-- `resolve_exec` for one token and no runtime that is not a quoted command. -/
def inferExec (shell : Bool) (token : String) : AppExec :=
  if fileExtension token ∈ ["js", "mjs", "cjs"] then entryExec shell token "node"
  else if fileExtension token = "go" then entryExec shell token "go run"
  else commandExec shell token none

/-- `resolve_exec`; it is not called without a token. -/
def resolveExec (cmdParts : List String) (runtime : String) (shell : Bool) : AppExec :=
  match cmdParts with
  | [] => { kind := "", shell := shell }
  | [token] =>
      if runtime ≠ "" then entryExec shell token runtime
      else match tokenize token with
        | .ok (first :: second :: rest) => commandExec shell first (some (second :: rest))
        | _ => inferExec shell token
  | first :: rest => commandExec shell first (some rest)

/-! ### The spec -/

/-- A field that is set when the flag was given a text. -/
def whenSet (s : String) : Option String := if s = "" then none else some s

/-- `std::path::absolute`, which asks for the working directory again if it needs it. -/
def absolutePath (workDir : Except String String) (p : String) : Except String String :=
  if p = "" then .error "cannot make an empty path absolute"
  else if isAbsolutePath p then .ok (String.ofList (Rust.Path.absolute [] p.toList))
  else workDir.map fun dir => String.ofList (Rust.Path.absolute dir.toList p.toList)

/-- The working directory of the spec. -/
def finalizeCwd (workDir : Except String String) (o : Options) : Except String String :=
  match if o.cwd = "" then workDir else .ok o.cwd with
  | .error e => .error ("failed to get current directory: " ++ e)
  | .ok cwd =>
      (absolutePath workDir cwd).mapError fun e =>
        "failed to resolve absolute path for cwd: " ++ e

/-- The stop section. -/
def finalizeStop (o : Options) : Option AppStop :=
  if o.stopSignal ≠ "" ∨ o.stopTimeoutMs ≠ 0 then
    some { signal := whenSet o.stopSignal, timeoutMs := nonZero o.stopTimeoutMs }
  else none

/-- The loop over the ignore patterns. -/
def readIgnores : List (List Char) → Except String (List String)
  | [] => .ok []
  | pat :: pats =>
      let trimmed := trim pat
      if trimmed = [] then readIgnores pats
      else if "..".toList <:+: trimmed ∨ Rust.Path.isAbsolute trimmed = true then
        .error ("invalid ignore pattern " ++ debug (String.ofList trimmed) ++
          ": must be relative, no '..'")
      else (readIgnores pats).map fun ps => String.ofList trimmed :: ps

/-- The watch section. -/
def finalizeWatch (o : Options) : Except String (Option AppWatch) :=
  if o.watch then
    match readIgnores (if o.watchIgnore = "" then [] else o.watchIgnore.toList.splitOn ',') with
    | .error e => .error e
    | .ok ignore =>
        if ignore.length > 100 then .error "too many ignore patterns (max 100)"
        else .ok (some { enabled := true, ignore := if ignore = [] then none else some ignore })
  else .ok none

/-- The spec, given what had to be computed for it. -/
def Options.spec (o : Options) (cwd : String) (watch : Option AppWatch)
    (resources : Option AppResources) (exec : AppExec) : AppSpec where
  id := ""
  name := o.name
  ns := some (if o.ns = "" then defaultNamespace else o.ns)
  exec := exec
  cwd := some cwd
  env := some .empty
  envFile := whenSet o.envFile
  logs := some
    { mode := o.stdio
      dir := whenSet o.logDir
      stdout := whenSet o.stdoutPath
      stderr := whenSet o.stderrPath
      format := whenSet o.logFormat
      timestamp := whenSet o.logTimestamp }
  restart := some
    { policy := o.restartPolicy
      maxRetries := some o.maxRestarts
      backoffMs := some o.restartDelay
      backoffType := some o.backoff
      stopOnExit := some o.stopOnExit }
  cron := whenSet o.cron
  runAs := some { mode := o.runAs }
  stop := finalizeStop o
  resources := resources
  watch := watch

/-- `finalize_spec`. -/
def SpecParser.finalizeSpec (workDir : Except String String) (p : SpecParser) :
    Except String AppSpec :=
  if p.cmdParts = [] then .error "missing command or entry file"
  else match finalizeCwd workDir p.options with
    | .error e => .error e
    | .ok cwd =>
        match finalizeWatch p.options with
        | .error e => .error e
        | .ok watch =>
            (finalizeResources p.options).map fun resources =>
              p.options.spec cwd watch resources
                (resolveExec p.cmdParts p.options.runtime p.options.shell)

/-- `parse_app_spec`: the spec and how many instances of it are asked for. -/
def parseAppSpec (workDir : Except String String) (cmdArgs : List String) :
    Except String (AppSpec × ℤ) :=
  match parseFrom {} false cmdArgs with
  | .error e => .error e
  | .ok p => (p.finalizeSpec workDir).map fun spec => (spec, p.options.scale)

/-- What the arguments of `run` ask for. -/
inductive Invocation where
  | help
  | usage (e : String)
  | start (top : TopFlags) (spec : AppSpec) (scale : ℤ)

/-- `run`, up to the point where it looks at the flags of the command as a whole. -/
def invocation (workDir : Except String String) (args : List String) : Invocation :=
  if argsContainHelp args then .help
  else
    let (top, cmdArgs) := filterTopFlags args
    match parseAppSpec workDir cmdArgs with
    | .error e => .usage e
    | .ok (spec, scale) => .start top spec scale

/-- `run`: `ids` and `now` are what `generate_id` and the clock give for each instance, and every
reply of the daemon arrives. -/
def run (workDir : Except String String) (ids now : ℕ → String) (m : ℕ → Host)
    (privileged : Bool) (identity : Identity) (d : Daemon) (args : List String) :
    Daemon × Except String Unit :=
  match read args with
  | .help => (d, .ok ())
  | .usage e => (d, .error e)
  | .command top p =>
      match p.finalizeSpec workDir with
      | .error e => (d, .error e)
      | .ok spec =>
          if top.dryRun then (d, .ok ())
          else d.runStart m privileged identity (instances spec p.options.scale ids now)

theorem run_eq (workDir : Except String String) (ids now : ℕ → String) (m : ℕ → Host)
    (privileged : Bool) (identity : Identity) (d : Daemon) (args : List String) :
    run workDir ids now m privileged identity d args =
      match invocation workDir args with
      | .help => (d, .ok ())
      | .usage e => (d, .error e)
      | .start top spec scale =>
          if top.dryRun then (d, .ok ())
          else d.runStart m privileged identity (instances spec scale ids now) := by
  unfold run read invocation parseAppSpec
  cases argsContainHelp args with
  | true => rfl
  | false =>
      cases hp : parseFrom {} false (filterTopFlags args).2 with
      | error e => simp [hp]
      | ok p => cases hs : p.finalizeSpec workDir <;> simp [hp, hs, Except.map]

/-! ### The words of a command line -/

/-- What runs a file of this name. -/
def interpreter (token : String) : List String :=
  if fileExtension token ∈ ["js", "mjs", "cjs"] then ["node"]
  else if fileExtension token = "go" then ["go", "run"]
  else []

/-- The words that a single token stands for: a file with its runtime, a command quoted as a whole,
or a file that is run by what its name says. -/
def wordsOf (runtime token : String) : List String :=
  if runtime ≠ "" then (splitWhitespace runtime.toList).map String.ofList ++ [token]
  else match tokenize token with
    | .ok (first :: second :: rest) => first :: second :: rest
    | _ => interpreter token ++ [token]

/-- The words that a command line asks to execute. -/
def SpecParser.command (p : SpecParser) : List String :=
  match p.cmdParts with
  | [token] => wordsOf p.options.runtime token
  | tokens => tokens

example : ({ cmdParts := ["cmd/server.go"] } : SpecParser).command =
    ["go", "run", "cmd/server.go"] := by decide +kernel

example : ({ cmdParts := ["uv run 'my app.py'"] } : SpecParser).command =
    ["uv", "run", "my app.py"] := by decide +kernel

theorem tokenize_eq (input : String) :
    tokenize input = (Manifest.tokenize input).mapError .ofTokenizeError :=
  lex_eq input.toList {}

/-- A command may be quoted as a whole: one token with the words in it stands for them. -/
theorem wordsOf_quoteTokens {ws : List String} (hlen : 2 ≤ ws.length) (hne : "" ∉ ws) :
    wordsOf "" (quoteTokens ws) = ws := by
  have hkeep : ws.filter (fun w => w ≠ "") = ws := by
    apply List.filter_eq_self.mpr
    intro w hw
    exact decide_eq_true fun he => hne (he ▸ hw)
  have htok : tokenize (quoteTokens ws) = .ok ws := by
    rw [tokenize_eq, tokenize_quoteTokens, hkeep]
    rfl
  unfold wordsOf
  rw [if_neg (by simp), htok]
  rcases ws with _ | ⟨first, _ | ⟨second, rest⟩⟩
  · simp at hlen
  · simp at hlen
  · rfl

/-- The words of the line that `sh -c` gets. -/
def shellWords (words : List String) : List Sh.Word := words.map fun a => Sh.quoted a.toList

theorem tokens_shellWords (bin : String) (args : List String) :
    Sh.tokens (shellLine bin args) = some ((shellWords (bin :: args)).map .word) := by
  rw [tokens_shellLine, shellWords, List.map_map]
  rfl

theorem fields_shellWords (words : List String) (e : Sh.Expansion) :
    e.fields (shellWords words) = words := by
  have hq : ∀ w ∈ shellWords words, ∀ q ∈ w, q.quoted = true := by
    intro w hw q hqw
    obtain ⟨a, -, rfl⟩ := List.mem_map.mp hw
    exact Sh.quoted_of_mem hqw
  rw [e.fields_of_quoted hq]
  exact quoteRemoval_tokens words

/-- The command executes the words: as its argument vector, or as the words that the shell finds in
its line, whatever is expanded. -/
def Executes (shell : Bool) (c : Command) (words : List String) : Prop :=
  if shell then
    ∃ line ws, c.argv = ["/bin/sh", "-c", line] ∧ Sh.tokens line = some (ws.map .word) ∧
      ∀ e : Sh.Expansion, e.fields ws = words
  else c.argv = words

section Words

variable {s : AppSpec} {shell : Bool} {bin : String} {args : List String}

theorem resolveExec_shell (cmdParts : List String) (runtime : String) :
    (resolveExec cmdParts runtime shell).shell = shell := by
  unfold resolveExec
  split
  · rfl
  · split_ifs
    · rfl
    · split
      · rfl
      · unfold inferExec
        split_ifs <;> rfl
  · rfl

theorem nonEmpty_eq_some {o : Option String} {a : String} (h : nonEmpty o = some a) : o = some a :=
  (Option.eq_some_of_filter_eq_some h)

theorem resolveCommand_of_commandExec {first : String} {rest : Option (List String)}
    (he : s.exec = commandExec shell first rest) (hr : resolveCommand s = .ok (bin, args)) :
    bin :: args = first :: rest.getD [] := by
  unfold resolveCommand at hr
  rw [he, if_pos (by rfl)] at hr
  split at hr
  · cases hr
  · rename_i b hb
    obtain rfl := Option.some.inj (nonEmpty_eq_some hb)
    simp only at hr
    split_ifs at hr
    obtain ⟨rfl, rfl⟩ := Prod.mk.inj (Except.ok.inj hr)
    rfl

theorem resolveCommand_of_entryExec {entry runtime : String}
    (he : s.exec = entryExec shell entry runtime) (hr : resolveCommand s = .ok (bin, args)) :
    bin :: args = (splitWhitespace runtime.toList).map String.ofList ++ [entry] := by
  have hkind : (entryExec shell entry runtime).kind ≠ "command" :=
    (by decide : "entry" ≠ "command")
  unfold resolveCommand at hr
  rw [he, if_neg hkind, if_pos (by rfl)] at hr
  split at hr
  · rename_i e r h1 h2
    obtain rfl := Option.some.inj (nonEmpty_eq_some h1)
    obtain rfl := Option.some.inj (nonEmpty_eq_some h2)
    split at hr
    · cases hr
    · rename_i b rt hw
      simp only at hr
      split_ifs at hr
      obtain ⟨rfl, rfl⟩ := Prod.mk.inj (Except.ok.inj hr)
      rw [hw]
      simp [entryExec]
  · cases hr

/-- What the daemon resolves in the exec section is what the tokens stand for. -/
theorem resolveCommand_of_resolveExec {p : SpecParser} (hp : p.cmdParts ≠ [])
    (he : s.exec = resolveExec p.cmdParts p.options.runtime shell)
    (hr : resolveCommand s = .ok (bin, args)) : bin :: args = p.command := by
  unfold SpecParser.command
  unfold resolveExec at he
  split at he
  case h_1 hnil => exact absurd hnil hp
  case h_2 token htok =>
      rw [htok]
      simp only
      unfold wordsOf
      split_ifs at he ⊢ with hrt
      · exact resolveCommand_of_entryExec he hr
      · split at he
        case h_1 first second rest hq => exact resolveCommand_of_commandExec he hr
        case h_2 hq =>
            have hnode : (splitWhitespace "node".toList).map String.ofList = ["node"] := by decide
            have hgo : (splitWhitespace "go run".toList).map String.ofList = ["go", "run"] := by
              decide
            unfold inferExec at he
            unfold interpreter
            split_ifs at he ⊢
            · rw [resolveCommand_of_entryExec he hr, hnode]
            · rw [resolveCommand_of_entryExec he hr, hgo]
            · exact resolveCommand_of_commandExec he hr
  case h_3 first rest hsingle htok =>
      rw [htok, resolveCommand_of_commandExec he hr]
      cases rest with
      | nil => exact (hsingle rfl).elim
      | cons second rest => rfl

end Words

/-! ### One instance -/

/-- The daemon has taken the spec `s` in the form `t` and has spawned the command `c` for it. -/
structure Launches (h : Host) (privileged : Bool) (identity : Identity) (s t : AppSpec)
    (c : Command) : Prop where
  admitted : admitRequest h privileged identity s = .ok t
  prepared : prepareCmd h t t.id (displayName t) = .ok c
  spawned : h.spawnErr c = none

theorem currentDir_of_checkCwd {h : Host} {t : AppSpec} {cmd cmd' : Command}
    (hc : checkCwd h t cmd = .ok cmd') (hcmd : cmd.currentDir = none) :
    cmd'.currentDir = nonEmpty t.cwd := by
  unfold checkCwd at hc
  split at hc
  · rename_i hnone
    rw [← Except.ok.inj hc, hcmd, hnone]
  · rename_i cwd hcwd
    split_ifs at hc
    rw [← Except.ok.inj hc, hcwd]

theorem buildCommand_currentDir (bin : String) (args : List String) (shell : Bool) :
    (buildCommand bin args shell).currentDir = none := by
  unfold buildCommand
  split <;> rfl

section Instance

variable {h : Host} {privileged : Bool} {identity : Identity} {s t : AppSpec} {c : Command}

/-- In self mode the words of the command line are executed, in the directory of the spec. -/
theorem Launches.executes (hl : Launches h privileged identity s t c) {p : SpecParser}
    (hp : p.cmdParts ≠ []) (hself : s.runAs = some { mode := "self" })
    (he : s.exec = resolveExec p.cmdParts p.options.runtime p.options.shell) :
    Executes p.options.shell c p.command ∧ c.currentDir = nonEmpty t.cwd := by
  obtain ⟨-, f, dir, rfl⟩ := admitRequest_ok hl.admitted
  have hmode : AppSpec.runAsMode { s with envFile := f, cwd := dir } = "self" := by
    unfold AppSpec.runAsMode
    rw [hself]
  have hs : AppSpec.runAsMode { s with envFile := f, cwd := dir } ≠ "sandbox" := by
    rw [hmode]
    decide
  have hd : AppSpec.runAsMode { s with envFile := f, cwd := dir } ≠ "dynamic" := by
    rw [hmode]
    decide
  obtain ⟨bin, args, cmd, file, iso, hr, hw, -, hi, hc⟩ := prepareCmd_ok_iff.mp hl.prepared
  have hargv := self_command hs hd hr hl.prepared
  have hshell : s.exec.shell = p.options.shell := by
    rw [he, resolveExec_shell]
  have hwords := resolveCommand_of_resolveExec hp he hr
  constructor
  · unfold Executes
    simp only [hshell] at hargv
    split_ifs at hargv ⊢
    · rw [← hwords]
      exact ⟨_, _, hargv, tokens_shellWords bin args, fields_shellWords (bin :: args)⟩
    · rw [hargv, hwords]
  · rw [isolate, if_neg hs, if_neg hd] at hi
    obtain rfl := Except.ok.inj hi
    have hdir := currentDir_of_checkCwd hw (buildCommand_currentDir bin args _)
    rw [hc]
    exact hdir

/-- The environment: the daemon's own, the pairs of the env file over it, and last the ordinal. -/
theorem Launches.childEnv (hl : Launches h privileged identity s t c) {i : String}
    (henv : s.env = some (BTreeMap.empty.insert "UNITPM_INSTANCE" i)) :
    ∃ file, fileEnv h t = .ok file ∧ ∀ k, h.systemMode = true ∨ k ≠ "" →
      c.childEnv h.env k =
        if k = "UNITPM_INSTANCE" then some i
        else overlay h.env.var (file.filterMap splitEntry) k := by
  obtain ⟨-, f, dir, rfl⟩ := admitRequest_ok hl.admitted
  obtain ⟨file, hf, hchild⟩ := prepareCmd_childEnv hl.prepared
  refine ⟨file, hf, fun k hk => ?_⟩
  have hspec : specEnv { s with envFile := f, cwd := dir } = [envEntry ("UNITPM_INSTANCE", i)] := by
    unfold specEnv
    simp only [henv]
    rfl
  rw [hchild k hk, userPairs, hspec, List.filterMap_append, List.filterMap_cons,
    splitEntry_envEntry i (by decide), List.filterMap_nil, overlay, lastVal_concat]
  split_ifs with hkey hkey'
  · rfl
  · exact absurd hkey.symm hkey'
  · rename_i hkey'
    exact absurd hkey'.symm hkey
  · rfl

end Instance

/-! ### The instances of a command line -/

/-- What the command `c` that the daemon has spawned for the spec `t` of the instance `i` does: in
self mode it executes the words of the command line in the directory of the spec.  It has the
environment of the daemon, the pairs of the env file over it, and its ordinal over both. -/
structure Serves (h : Host) (p : SpecParser) (i : ℕ) (t : AppSpec) (c : Command) : Prop where
  executes : p.options.runAs = "self" → Executes p.options.shell c p.command
  currentDir : p.options.runAs = "self" → c.currentDir = nonEmpty t.cwd
  childEnv : ∃ file, fileEnv h t = .ok file ∧ ∀ k, h.systemMode = true ∨ k ≠ "" →
    c.childEnv h.env k =
      if k = "UNITPM_INSTANCE" then some (toString i)
      else overlay h.env.var (file.filterMap splitEntry) k

section Instances

variable {workDir : Except String String} {p : SpecParser} {spec t : AppSpec} {h : Host}
  {m : ℕ → Host} {privileged : Bool} {identity : Identity} {d d' : Daemon} {c : Command}

theorem finalizeSpec_ok_iff : p.finalizeSpec workDir = .ok spec ↔
    p.cmdParts ≠ [] ∧ ∃ cwd watch resources, finalizeCwd workDir p.options = .ok cwd ∧
      finalizeWatch p.options = .ok watch ∧ finalizeResources p.options = .ok resources ∧
      spec = p.options.spec cwd watch resources
        (resolveExec p.cmdParts p.options.runtime p.options.shell) := by
  unfold SpecParser.finalizeSpec
  split_ifs with hp
  · simp [hp]
  · cases finalizeCwd workDir p.options with
    | error e => simp
    | ok cwd =>
        cases finalizeWatch p.options with
        | error e => simp
        | ok watch =>
            cases finalizeResources p.options with
            | error e => simp [Except.map]
            | ok resources => simp [Except.map, hp, eq_comm]

theorem instanceSpec_exec (scale i : ℕ) (id now : String) :
    (instanceSpec spec scale id now i).exec = spec.exec := rfl

theorem instanceSpec_runAs (scale i : ℕ) (id now : String) :
    (instanceSpec spec scale id now i).runAs = spec.runAs := rfl

theorem Launches.serves (hf : p.finalizeSpec workDir = .ok spec) {scale i : ℕ} {id now : String}
    (hl : Launches h privileged identity (instanceSpec spec scale id now i) t c) :
    Serves h p i t c := by
  obtain ⟨hp, cwd, watch, resources, -, -, -, rfl⟩ := finalizeSpec_ok_iff.mp hf
  have hself : p.options.runAs = "self" →
      Executes p.options.shell c p.command ∧ c.currentDir = nonEmpty t.cwd := by
    intro hmode
    apply hl.executes hp
    · rw [instanceSpec_runAs, ← hmode]
      rfl
    · rw [instanceSpec_exec]
      rfl
  exact ⟨fun hm => (hself hm).1, fun hm => (hself hm).2, hl.childEnv rfl⟩

theorem exists_launches {s : AppSpec} (ht : admitRequest h privileged identity s = .ok t)
    (hc : d.CanStart h t) : ∃ c, Launches h privileged identity s t c := by
  obtain ⟨q, hq, he⟩ := hc
  obtain ⟨rfl, -⟩ := Process.new_ok (Daemon.admission_ok hq).2
  unfold Process.startError at he
  split_ifs at he
  split at he
  · cases he
  · rename_i c hprep
    rw [q.id_eq, q.name_eq] at hprep
    exact ⟨c, ht, hprep, Option.map_eq_none_iff.mp he⟩

/-- The instances of a list are registered, and their commands are spawned. -/
def Launched (m : ℕ → Host) (privileged : Bool) (identity : Identity) (d : Daemon)
    (xs : List (AppSpec × ℕ)) (d' : Daemon) : Prop :=
  ∃ ts, Daemon.Registers d d' ts ∧ List.Forall₂ (fun x t => t.id = x.1.id ∧
    ∃ c, Launches (m x.2) privileged identity x.1 t c) xs ts

theorem launched_of_ok {xs : List (AppSpec × ℕ)}
    (hs : Run.untilError (Daemon.startInstance m privileged identity) d xs = (d', .ok ())) :
    Launched m privileged identity d xs d' := by
  apply Run.untilError_ok (Launched m privileged identity) _ _ hs
  · intro d
    exact ⟨[], Daemon.registers_nil d, .nil⟩
  · rintro d x l d₁ d' h1 ⟨ts, hr, hts⟩
    obtain ⟨dir, t, q, ht, hcan, hnone, hspec, hlk⟩ := Daemon.startInstance_ok h1
    obtain ⟨-, f, cwd, rfl⟩ := admitRequest_ok ht
    exact ⟨_ :: ts, hr.cons hnone hspec hlk, .cons ⟨rfl, exists_launches ht hcan⟩ hts⟩

/-- However the loop ends, it has launched the first instances and done nothing else. -/
theorem launched_of_runStart (m : ℕ → Host) (privileged : Bool) (identity : Identity) (d : Daemon)
    (specs : List AppSpec) :
    ∃ n d₁, n ≤ specs.length ∧
      Launched m privileged identity d (specs.zipIdx.take n) d₁ ∧
      (d.runStart m privileged identity specs).1.processes = d₁.processes ∧
      ((d.runStart m privileged identity specs).2 = .ok () ↔ n = specs.length) := by
  unfold Daemon.runStart
  rcases hrun : Run.untilError (Daemon.startInstance m privileged identity) d specs.zipIdx with
    ⟨u, e | _⟩
  · obtain ⟨l₁, x, l₂, d₁, hl, hok, hfail⟩ := Run.untilError_error hrun
    have hlen : l₁.length < specs.length := by
      have := congrArg List.length hl
      rw [List.length_zipIdx, List.length_append, List.length_cons] at this
      omega
    refine ⟨l₁.length, d₁, hlen.le, ?_, Daemon.startInstance_error hfail, ?_⟩
    · rw [hl, List.take_left]
      exact launched_of_ok hok
    · exact ⟨fun h => (by cases h), fun h => absurd h hlen.ne⟩
  · refine ⟨specs.length, u, le_rfl, ?_, rfl, iff_of_true rfl rfl⟩
    rw [List.take_of_length_le (by rw [List.length_zipIdx])]
    exact launched_of_ok hrun

end Instances

/-! ### The result -/

section Result

variable {workDir : Except String String} {args : List String} {top : TopFlags} {p : SpecParser}
  {spec : AppSpec}

theorem getElem_zipIdx_instances {scale : ℤ} {ids now : ℕ → String} {i : ℕ}
    (hi : i < (instances spec scale ids now).zipIdx.length) :
    (instances spec scale ids now).zipIdx[i] =
      (instanceSpec spec (max scale 1).toNat (ids i) (now i) i, i) := by
  simp [instances]

/-- **From the command line to the processes.** A command line that is read starts its instances in
turn.  However that ends, the first `n` of them are registered, all of them exactly if the command
succeeds; each has its ordinal and serves the command line, and no other entry changes. -/
theorem run_serves (hread : read args = .command top p) (hdry : top.dryRun = false)
    (hf : p.finalizeSpec workDir = .ok spec) (ids now : ℕ → String) (m : ℕ → Host)
    (privileged : Bool) (identity : Identity) (d : Daemon) :
    let scale := (max p.options.scale 1).toNat
    let x := run workDir ids now m privileged identity d args
    ∃ n ≤ scale, (x.2 = .ok () ↔ n = scale) ∧
      (∀ i < n, d.processes.lookup (ids i) = none ∧ ∃ q c,
        x.1.processes.lookup (ids i) = some q ∧
        Launches (m i) privileged identity (instanceSpec spec scale (ids i) (now i) i) q.spec c ∧
        Serves (m i) p i q.spec c) ∧
      ∀ id, (∀ i < n, id ≠ ids i) → x.1.processes.lookup id = d.processes.lookup id := by
  intro scale x
  have hx : x = d.runStart m privileged identity (instances spec p.options.scale ids now) := by
    unfold x run
    simp only [hread, hf, hdry, Bool.false_eq_true, if_false]
  have hscale : (instances spec p.options.scale ids now).length = scale := by
    rw [instances, List.length_map, List.length_range]
  obtain ⟨n, d₁, hn, ⟨ts, hr, hts⟩, hproc, hok⟩ := launched_of_runStart m privileged identity d
    (instances spec p.options.scale ids now)
  rw [← hx] at hproc hok
  rw [hscale] at hn hok
  obtain ⟨hlen, hget⟩ := List.forall₂_iff_get.mp hts
  rw [List.length_take, List.length_zipIdx, hscale, min_eq_left hn] at hlen
  have hat : ∀ i (hi : i < n), ∃ t ∈ ts, t.id = ids i ∧ ∃ c,
      Launches (m i) privileged identity (instanceSpec spec scale (ids i) (now i) i) t c := by
    intro i hi
    have hti : i < ts.length := hlen ▸ hi
    have h := hget i (by
      rw [List.length_take, List.length_zipIdx, hscale]
      omega) hti
    simp only [List.get_eq_getElem, List.getElem_take, getElem_zipIdx_instances] at h
    exact ⟨ts[i], List.getElem_mem hti, h⟩
  refine ⟨n, hn, hok, fun i hi => ?_, fun id hid => ?_⟩
  · obtain ⟨t, ht, htid, c, hl⟩ := hat i hi
    obtain ⟨q, hq, rfl⟩ := hr.added t ht
    refine ⟨htid ▸ hr.fresh _ ht, q, c, ?_, hl, hl.serves hf⟩
    rw [hproc, ← htid, hq]
  · rw [hproc]
    apply hr.others
    intro hmem
    obtain ⟨t, ht, rfl⟩ := List.mem_map.mp hmem
    obtain ⟨i, hi, rfl⟩ := List.getElem_of_mem ht
    have h := hget i (by
      rw [List.length_take, List.length_zipIdx, hscale]
      omega) hi
    simp only [List.get_eq_getElem, List.getElem_take, getElem_zipIdx_instances] at h
    exact hid i (hlen ▸ hi) h.1

/-- The parser behind `sleep 30 --name api --scale 2 --cwd /srv`. -/
def sleepParser : SpecParser :=
  { options := { name := "api", cwd := "/srv", scale := 2 }, cmdParts := ["sleep", "30"] }

def sleepId (i : ℕ) : String := "0190b5a0-0000-7000-8000-00000000000" ++ toString i

/-- Both instances are started, and the second is told so. -/
theorem run_serves_sleep :
    let x := run (.ok "/root") sleepId (fun _ => "2026-01-01T00:00:00Z") (fun _ => userHost) false
      ⟨"1000"⟩ (Daemon.fresh 0 none ∅)
      ["sleep", "30", "--name", "api", "--scale", "2", "--cwd", "/srv"]
    x.2 = .ok () ∧ ∃ (q : Process) (c : Command), x.1.processes.lookup (sleepId 1) = some q ∧
      c.argv = ["sleep", "30"] ∧ c.childEnv userHost.env "UNITPM_INSTANCE" = some "1" := by
  intro x
  have hx : x.2 = .ok () := by decide +kernel
  have hread : read ["sleep", "30", "--name", "api", "--scale", "2", "--cwd", "/srv"] =
      .command {} sleepParser := by decide +kernel
  have hf : sleepParser.finalizeSpec (.ok "/root") = .ok (sleepParser.options.spec "/srv" none none
      (resolveExec sleepParser.cmdParts "" false)) := by decide +kernel
  obtain ⟨n, -, hok, hinst, -⟩ := run_serves hread rfl hf sleepId
    (fun _ => "2026-01-01T00:00:00Z") (fun _ => userHost) false ⟨"1000"⟩ (Daemon.fresh 0 none ∅)
  have hn : n = 2 := hok.mp hx
  obtain ⟨-, q, c, hq, -, hserves⟩ := hinst 1 (by omega)
  obtain ⟨file, -, henv⟩ := hserves.childEnv
  refine ⟨hx, q, c, hq, hserves.executes rfl, ?_⟩
  rw [henv "UNITPM_INSTANCE" (.inr (by decide)), if_pos rfl]
  rfl

end Result

end Unitpm.Start
