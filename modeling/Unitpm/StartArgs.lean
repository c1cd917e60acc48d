import Mathlib.Algebra.GroupWithZero.Nat
import Mathlib.Data.List.Basic
import Unitpm.Lib.Str

/-! # The arguments of `unitpm start`

`internal/cli/commands/start/mod.rs` and `parser.rs`.  Three passes look at the arguments: a scan
for a help token, a filter for the flags of the command as a whole, and the parser of the spec.
Only the parser knows that `--` ends the flags.

What the parser does with a token depends on its shape (`shape`) and on what stands after it, and
`parseStep_cases` says how. -/

namespace Unitpm.Start

open Rust.Str

/-! ### The parser -/

/-- The fields of `SpecParser` that flags set, with the defaults of `new`. -/
structure Options where
  name : String := ""
  ns : String := ""
  cwd : String := ""
  stdio : String := "file"
  runAs : String := "self"
  cron : String := ""
  runtime : String := ""
  envFile : String := ""
  shell : Bool := false
  restartPolicy : String := "on-failure"
  maxRestarts : ℤ := 10
  restartDelay : ℤ := 2000
  backoff : String := "expo"
  stopOnExit : List ℤ := [0]
  logDir : String := ""
  stdoutPath : String := ""
  stderrPath : String := ""
  logFormat : String := "plain"
  logTimestamp : String := "rfc3339"
  stopSignal : String := ""
  stopTimeoutMs : ℤ := 0
  memoryMax : String := ""
  cpuMaxPct : ℤ := 0
  tasksMax : ℤ := 0
  watch : Bool := false
  watchIgnore : String := ""
  scale : ℤ := 1
deriving DecidableEq

/-- `SpecParser`, without the cursor.  `parsing_flags` is never cleared, so it is not kept. -/
structure SpecParser where
  options : Options := {}
  cmdParts : List String := []
deriving DecidableEq

def SpecParser.push (p : SpecParser) (arg : String) : SpecParser :=
  { p with cmdParts := p.cmdParts ++ [arg] }

/-- What a flag sets, and the kind of value it reads. -/
inductive Flag where
  | string (set : String → Options → Options)
  | int (set : ℤ → Options → Options)
  | intList (set : List ℤ → Options → Options)
  | switch (set : Options → Options)

/-- The table of `handle_flag`. -/
def flagOf : String → Option Flag
  | "--name" => some (.string fun v o => { o with name := v })
  | "--namespace" => some (.string fun v o => { o with ns := v })
  | "--cwd" => some (.string fun v o => { o with cwd := v })
  | "--cron" => some (.string fun v o => { o with cron := v })
  | "--schedule" => some (.string fun v o => { o with cron := v })
  | "--runtime" => some (.string fun v o => { o with runtime := v })
  | "--isolation" => some (.string fun v o => { o with runAs := v })
  | "--shell" => some (.switch fun o => { o with shell := true })
  | "--env-file" => some (.string fun v o => { o with envFile := v })
  | "--restart" => some (.string fun v o => { o with restartPolicy := v })
  | "--max-restarts" => some (.int fun v o => { o with maxRestarts := v })
  | "--restart-delay" => some (.int fun v o => { o with restartDelay := v })
  | "--backoff" => some (.string fun v o => { o with backoff := v })
  | "--stop-on-exit" => some (.intList fun v o => { o with stopOnExit := v })
  | "--log-dir" => some (.string fun v o => { o with logDir := v })
  | "--stdout" => some (.string fun v o => { o with stdoutPath := v })
  | "--stderr" => some (.string fun v o => { o with stderrPath := v })
  | "--log-format" => some (.string fun v o => { o with logFormat := v })
  | "--log-timestamp" => some (.string fun v o => { o with logTimestamp := v })
  | "--scale" => some (.int fun v o => { o with scale := v })
  | "--instances" => some (.int fun v o => { o with scale := v })
  | "--stop-signal" => some (.string fun v o => { o with stopSignal := v })
  | "--stop-timeout" => some (.int fun v o => { o with stopTimeoutMs := v })
  | "--watch" => some (.switch fun o => { o with watch := true })
  | "--watch-ignore" => some (.string fun v o => { o with watchIgnore := v })
  | "--memory-max" => some (.string fun v o => { o with memoryMax := v })
  | "--cpu-max" => some (.int fun v o => { o with cpuMaxPct := v })
  | "--tasks-max" => some (.int fun v o => { o with tasksMax := v })
  | _ => none

/-- `i32::from_str`. -/
def parseI32 (s : List Char) : Option ℤ := parseSigned (2 ^ 31) (2 ^ 31 - 1) s

/-- The value of `read_int_value`. -/
def readIntValue (v : String) : Except String ℤ :=
  match parseI32 v.toList with
  | some n => .ok n
  | none => .error ("invalid integer value: " ++ v)

/-- The loop of `read_int_list`. -/
def readInts : List (List Char) → Except String (List ℤ)
  | [] => .ok []
  | raw :: raws =>
      let trimmed := trim raw
      if trimmed = [] then readInts raws
      else match parseI32 trimmed with
        | none => .error ("invalid integer in list: " ++ String.ofList trimmed)
        | some n => (readInts raws).map fun ns => n :: ns

/-- The value of `read_int_list`. -/
def readIntList (v : String) : Except String (List ℤ) := readInts (v.toList.splitOn ',')

/-- The value of a flag, read and stored. -/
def Flag.read : Flag → String → Options → Except String Options
  | .string set, v, o => .ok (set v o)
  | .int set, v, o => (readIntValue v).map fun n => set n o
  | .intList set, v, o => (readIntList v).map fun ns => set ns o
  | .switch set, _, o => .ok (set o)

/-- `handle_flag`, given the token after the flag: what is set, and whether the cursor moved to that
token.  It has moved also where the value is missing or wrong. -/
def handleFlag (o : Options) (arg : String) (next : Option String) :
    Bool × Except String Options :=
  match flagOf arg, next with
  | none, _ => (false, .error ("unknown flag: " ++ arg))
  | some (.switch set), _ => (false, .ok (set o))
  | some _, none => (true, .error "missing value for flag")
  | some f, some v => (true, f.read v o)

/-- A token that begins with `-` and is not `-` itself. -/
def isFlag (arg : String) : Bool := startsWith "-" arg && arg ≠ "-"

/-- What the body of the loop of `parse` comes to. -/
inductive Step where
  | fail (e : String)
  | go (p : SpecParser) (moved : Bool)

/-- The error arm of `parse`: after the first command token the flag becomes a token itself. -/
def recover (p : SpecParser) (arg : String) (moved : Bool) (e : String) : Step :=
  if p.cmdParts = [] then .fail e else .go (p.push arg) moved

/-- The body of the loop of `parse` for a token other than `--`, given the token after it. -/
def parseStep (p : SpecParser) (arg : String) (next : Option String) : Step :=
  if isFlag arg then
    match handleFlag p.options arg next with
    | (moved, .ok o) => .go { p with options := o } moved
    | (moved, .error e) => recover p arg moved e
  else .go (p.push arg) false

/-- The loop of `parse`.  `moved` says that the cursor stands before a token that was read as a
value. -/
def parseFrom (p : SpecParser) (moved : Bool) : List String → Except String SpecParser
  | [] => .ok p
  | arg :: rest =>
      if moved then parseFrom p false rest
      else if arg = "--" then .ok { p with cmdParts := p.cmdParts ++ rest }
      else match parseStep p arg rest.head? with
        | .fail e => .error e
        | .go p moved => parseFrom p moved rest

/-! ### The command -/

/-- `args_contain_help`. -/
def argsContainHelp (args : List String) : Bool :=
  args.any fun a => a == "-h" || a == "--help" || a == "-help"

/-- The flags of the command as a whole. -/
structure TopFlags where
  dryRun : Bool := false
  jsonOut : Bool := false
  noList : Bool := false
deriving DecidableEq

/-- Whether `filter_top_flags` takes the token out. -/
def isTopFlag (a : String) : Bool :=
  a == "--dry-run" || a == "-n" || a == "--json" || a == "--no-list"

/-- `filter_top_flags`. -/
def filterTopFlags (args : List String) : TopFlags × List String :=
  ({ dryRun := args.any fun a => a == "--dry-run" || a == "-n"
     jsonOut := args.contains "--json"
     noList := args.contains "--no-list" },
    args.filter fun a => !isTopFlag a)

/-- How `run` reads its arguments: a request for help, a usage error, or the options and tokens of a
command. -/
inductive Reading where
  | help
  | usage (e : String)
  | command (top : TopFlags) (p : SpecParser)
deriving DecidableEq

/-- The passes of `run` over its arguments, up to the end of the loop of `parse`.  `finalize_spec`
comes after it, on the parser that is left. -/
def read (args : List String) : Reading :=
  if argsContainHelp args then .help
  else
    let (top, cmdArgs) := filterTopFlags args
    match parseFrom {} false cmdArgs with
    | .error e => .usage e
    | .ok p => .command top p

/-! ### The shapes of the tokens -/

/-- What the parser sees in a token. -/
inductive Shape where
  | separator
  | word
  | switch
  | unknown
  | option (accepts : String → Bool)

/-- The values a flag takes. -/
def Flag.accepts : Flag → String → Bool
  | .int _, v => (readIntValue v).isOk
  | .intList _, v => (readIntList v).isOk
  | _, _ => true

def shape (arg : String) : Shape :=
  if arg = "--" then .separator
  else if isFlag arg then
    match flagOf arg with
    | none => .unknown
    | some (.switch _) => .switch
    | some f => .option f.accepts
  else .word

theorem Flag.read_cases (f : Flag) (v : String) (o : Options) :
    (f.accepts v = true ∧ ∃ o', f.read v o = .ok o') ∨
      (f.accepts v = false ∧ ∃ e, f.read v o = .error e) := by
  cases f with
  | string set => exact Or.inl ⟨rfl, _, rfl⟩
  | switch set => exact Or.inl ⟨rfl, _, rfl⟩
  | int set =>
      simp only [accepts, read]
      cases readIntValue v with
      | ok n => exact Or.inl ⟨rfl, _, rfl⟩
      | error e => exact Or.inr ⟨rfl, _, rfl⟩
  | intList set =>
      simp only [accepts, read]
      cases readIntList v with
      | ok ns => exact Or.inl ⟨rfl, _, rfl⟩
      | error e => exact Or.inr ⟨rfl, _, rfl⟩

/-- A flag that takes a value moves the cursor, whether the value is good or not. -/
theorem handleFlag_option {arg : String} {f : Flag} (hf : flagOf arg = some f)
    (hs : ∀ set, f ≠ .switch set) (o : Options) (next : Option String) :
    (∃ v o', next = some v ∧ f.accepts v = true ∧ handleFlag o arg next = (true, .ok o')) ∨
      ((∀ v, next = some v → f.accepts v = false) ∧
        ∃ e, handleFlag o arg next = (true, .error e)) := by
  have heq : handleFlag o arg next =
      (true, next.elim (.error "missing value for flag") fun v => f.read v o) := by
    unfold handleFlag
    rw [hf]
    cases f with
    | switch set => exact absurd rfl (hs set)
    | string set => cases next <;> rfl
    | int set => cases next <;> rfl
    | intList set => cases next <;> rfl
  rw [heq]
  cases next with
  | none => exact Or.inr ⟨nofun, _, rfl⟩
  | some v =>
      rcases f.read_cases v o with ⟨ha, o', hr⟩ | ⟨ha, e, hr⟩
      · exact Or.inl ⟨v, o', rfl, ha, by rw [Option.elim_some, hr]⟩
      · refine Or.inr ⟨fun w hw => ?_, e, by rw [Option.elim_some, hr]⟩
        obtain rfl := Option.some.inj hw
        exact ha

/-- What the parser does with one token, by its shape. -/
theorem parseStep_cases (p : SpecParser) {arg : String} (hsep : arg ≠ "--")
    (next : Option String) :
    (shape arg = .word ∧ parseStep p arg next = .go (p.push arg) false) ∨
      (shape arg = .switch ∧ ∃ o, parseStep p arg next = .go { p with options := o } false) ∨
      (shape arg = .unknown ∧ ∃ e, parseStep p arg next = recover p arg false e) ∨
      ∃ accepts, shape arg = .option accepts ∧
        ((∃ v o, next = some v ∧ accepts v = true ∧
            parseStep p arg next = .go { p with options := o } true) ∨
          ((∀ v, next = some v → accepts v = false) ∧
            ∃ e, parseStep p arg next = recover p arg true e)) := by
  unfold shape parseStep
  rw [if_neg hsep]
  split_ifs with hflag
  · cases hf : flagOf arg with
    | none =>
        have he : handleFlag p.options arg next = (false, .error ("unknown flag: " ++ arg)) := by
          unfold handleFlag
          rw [hf]
        exact Or.inr (Or.inr (Or.inl ⟨rfl, _, by rw [he]⟩))
    | some f =>
        cases f with
        | switch set =>
            have he : handleFlag p.options arg next = (false, .ok (set p.options)) := by
              unfold handleFlag
              rw [hf]
            exact Or.inr (Or.inl ⟨rfl, _, by rw [he]⟩)
        | _ =>
            refine Or.inr (Or.inr (Or.inr ⟨_, rfl, ?_⟩))
            rcases handleFlag_option hf nofun p.options next with ⟨v, o, hv, ha, he⟩ | ⟨ha, e, he⟩
            · exact Or.inl ⟨v, o, hv, ha, by rw [he]⟩
            · exact Or.inr ⟨ha, e, by rw [he]⟩
  · exact Or.inl ⟨rfl, rfl⟩

/-- Whether the parser has a command token. -/
def SpecParser.words (p : SpecParser) : Bool := p.cmdParts ≠ []

theorem recover_cases (p : SpecParser) (arg : String) (moved : Bool) (e : String) :
    (p.words = true ∧ recover p arg moved e = .go (p.push arg) moved) ∨
      (p.words = false ∧ recover p arg moved e = .fail e) := by
  unfold recover SpecParser.words
  split_ifs with hp
  · exact Or.inr ⟨by simp [hp], rfl⟩
  · exact Or.inl ⟨by simp [hp], rfl⟩

@[simp] theorem words_push (p : SpecParser) (arg : String) : (p.push arg).words = true := by
  simp [SpecParser.words, SpecParser.push]

@[simp] theorem words_options (p : SpecParser) (o : Options) :
    SpecParser.words { p with options := o } = p.words := rfl

theorem parseFrom_cons {p : SpecParser} {arg : String} (hsep : arg ≠ "--") (rest : List String) :
    parseFrom p false (arg :: rest) =
      match parseStep p arg rest.head? with
      | .fail e => .error e
      | .go p moved => parseFrom p moved rest := by
  rw [parseFrom, if_neg (by decide), if_neg hsep]

end Unitpm.Start
