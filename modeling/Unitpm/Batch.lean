import Unitpm.Lib.Pointwise
import Unitpm.ConcurrentStop
import Unitpm.Expand
import Unitpm.Files

/-! # Batch verbs

`internal/cli/batch` and the commands `stop`, `delete`, `restart`, `reload` and `reset`: the command
line is parsed, its targets are expanded through the list of the daemon, and one request is sent for
each of them.  A failure is recorded and the next target tried; the command fails if one has.

`run_carriedOut`: a `stop`, `delete` or `reset` does to the processes for which a request of it is
handled what it does to one, and touches no other; if all its requests are answered, these are the
processes that its command line selects.  A deletion may change what a later token denotes, so this
needs tokens that name each process once and are not ambiguous. -/

namespace Unitpm.Batch

open Rust.Str Expand ListCommand

/-! ### The report -/

/-- Status of a single target's outcome. -/
inductive Status where
  | ok | failed | noop
deriving DecidableEq

/-- One target's outcome. -/
structure Result where
  id : String
  status : Status
  error : Option String := none
  extra : List (String × Json) := []

/-- Counts per status. -/
structure Summary where
  total : ℕ := 0
  ok : ℕ := 0
  failed : ℕ := 0
  noop : ℕ := 0

/-- Aggregate for one batch run. -/
structure Report where
  op : String
  results : List Result := []
  summary : Summary := {}

namespace Report

/-- `Report::add`. -/
def add (r : Report) (res : Result) : Report where
  op := r.op
  results := r.results ++ [res]
  summary :=
    match res.status with
    | .ok => { r.summary with total := r.summary.total + 1, ok := r.summary.ok + 1 }
    | .failed => { r.summary with total := r.summary.total + 1, failed := r.summary.failed + 1 }
    | .noop => { r.summary with total := r.summary.total + 1, noop := r.summary.noop + 1 }

def ok (r : Report) (id : String) (extra : List (String × Json)) : Report :=
  r.add { id := id, status := .ok, extra := extra }

def noop (r : Report) (id : String) (extra : List (String × Json)) : Report :=
  r.add { id := id, status := .noop, extra := extra }

def fail (r : Report) (id : String) (err : Option String) : Report :=
  r.add { id := id, status := .failed, error := err }

/-- `Report::err`. -/
def err (r : Report) : Option String :=
  if r.summary.failed = 0 then none
  else if r.summary.failed = 1 ∧ r.summary.total = 1 then some (r.op ++ " failed")
  else some (r.op ++ ": " ++ toString r.summary.failed ++ " of " ++ toString r.summary.total ++
    " targets failed")

/-- The counts are those of the results. -/
structure Counted (r : Report) : Prop where
  total : r.summary.total = r.results.length
  ok : r.summary.ok = r.results.countP (·.status = .ok)
  failed : r.summary.failed = r.results.countP (·.status = .failed)
  noop : r.summary.noop = r.results.countP (·.status = .noop)

theorem Counted.add {r : Report} (h : r.Counted) (res : Result) : (r.add res).Counted := by
  obtain ⟨ht, ho, hf, hn⟩ := h
  cases hs : res.status <;> constructor <;> simp [Report.add, List.countP_append, *]

end Report

/-! ### The command line -/

/-- `trim_start_matches` of one character. -/
def trimStartMatches (c : Char) (s : String) : String := String.ofList (s.toList.dropWhile (· == c))

/-- A token that counts as a flag; `-` alone is none. -/
def isFlag (a : String) : Bool := 1 < a.utf8ByteSize && startsWith "-" a

/-- `split_args_with_values`. -/
def splitArgsWithValues (valueFlags : List String) : List String → List String × List String
  | [] => ([], [])
  | [a] => if isFlag a then ([a], []) else ([], [a])
  | a :: b :: rest =>
      if isFlag a then
        if a.toList.contains '=' = false ∧ valueFlags.contains (trimStartMatches '-' a) then
          let r := splitArgsWithValues valueFlags rest
          (a :: b :: r.1, r.2)
        else
          let r := splitArgsWithValues valueFlags (b :: rest)
          (a :: r.1, r.2)
      else
        let r := splitArgsWithValues valueFlags (b :: rest)
        (r.1, a :: r.2)

structure ParsedArgs where
  jsonOut : Bool := false
  noList : Bool := false
  purge : Bool := false
  ns : String := ""
  ids : List String := []
deriving DecidableEq

def missingNamespace : UsageError := ⟨"missing value for --namespace"⟩

/-- The loop of `parse_args` over the flags. -/
def parseFlags (p : ParsedArgs) : List String → Except UsageError ParsedArgs
  | [] => .ok p
  | arg :: rest =>
      if arg = "--json" then parseFlags { p with jsonOut := true } rest
      else if arg = "--no-list" then parseFlags { p with noList := true } rest
      else if arg = "--namespace" then
        match rest with
        | [] => .error missingNamespace
        | v :: rest => parseFlags { p with ns := v } rest
      else match stripPrefix? "--namespace=" arg with
        | some v => parseFlags { p with ns := v } rest
        | none =>
            if arg = "-h" ∨ arg = "--help" then parseFlags p rest
            else if startsWith "-" arg then
              .error ⟨"Unknown flag: -" ++ trimStartMatches '-' arg⟩
            else parseFlags p rest

/-- `parse_args` of `stop` and of `restart`. -/
def parseArgs (args : List String) : Except UsageError ParsedArgs :=
  let r := splitArgsWithValues ["namespace"] args
  match parseFlags {} r.1 with
  | .error e => .error e
  | .ok p => .ok { p with ids := r.2 }

def trimStartTimes (p : List Char) : ℕ → List Char → List Char
  | 0, s => s
  | n + 1, s => if p.isPrefixOf s then trimStartTimes p n (s.drop p.length) else s

/-- `trim_start_matches` of a text that is not empty: it is taken off as often as it is there. -/
def trimStartText (p s : String) : String :=
  String.ofList (trimStartTimes p.toList s.toList.length s.toList)

/-- The loop of `delete`, `reload` and `reset`, of which `delete` alone knows `--purge`.  Unknown
flags are targets. -/
def parsePlain (purges : Bool) (p : ParsedArgs) : List String → Except UsageError ParsedArgs
  | [] => .ok p
  | a :: rest =>
      if a = "--json" then parsePlain purges { p with jsonOut := true } rest
      else if a = "--purge" ∧ purges then parsePlain purges { p with purge := true } rest
      else if a = "--namespace" then
        match rest with
        | [] => .error missingNamespace
        | v :: rest => parsePlain purges { p with ns := v } rest
      else if startsWith "--namespace=" a then
        parsePlain purges { p with ns := trimStartText "--namespace=" a } rest
      else parsePlain purges { p with ids := p.ids ++ [a] } rest

/-! ### The verbs -/

inductive Verb where
  | stop | delete | restart | reload | reset
deriving DecidableEq

namespace Verb

def op : Verb → String
  | stop => "stop"
  | delete => "delete"
  | restart => "restart"
  | reload => "reload"
  | reset => "reset"

/-- `args_contain_help`; `-help` is known to two commands only. -/
def wantsHelp (v : Verb) (args : List String) : Bool :=
  match v with
  | stop | restart => args.any fun a => a == "-h" || a == "--help" || a == "-help"
  | delete | reload | reset => args.any fun a => a == "-h" || a == "--help"

def parse (v : Verb) (args : List String) : Except UsageError ParsedArgs :=
  match v with
  | stop | restart => parseArgs args
  | delete => parsePlain true {} args
  | reload | reset => parsePlain false {} args

/-- The handler of the daemon. -/
def handler (v : Verb) (h : Host) (d : Daemon) (target : String) :
    Daemon × Except String Response :=
  match v with
  | stop => d.stopHandler h target
  | delete => d.deleteHandler h target
  | restart => d.restartHandler h target
  | reload => d.reloadHandler h target
  | reset => d.resetHandler h target

end Verb

/-- The field `id` of an answer. -/
def answerId : Response → String
  | .started id _ _ => id
  | .stopped id _ => id
  | .done _ id => id
  | .scaled _ => ""

/-- The field `was_running` of an answer. -/
def answerWasRunning : Response → Bool
  | .stopped _ was => was
  | _ => false

/-- `Display for RemoteError`. -/
def remoteText (code message : String) : String := "ipc error: [" ++ code ++ "] " ++ message

/-- What is recorded for a target. -/
def record (v : Verb) (target : String) (answer : Except String Response) (rep : Report) : Report :=
  match answer with
  | .error e => rep.fail target (some e)
  | .ok r =>
      match v with
      | .stop =>
          let extra := [("was_running", Json.bool (answerWasRunning r))]
          if answerWasRunning r then rep.ok (answerId r) extra else rep.noop (answerId r) extra
      | .delete => rep.ok (answerId r) [("id", .str (answerId r))]
      | _ => rep.ok (answerId r) []

/-! ### The command -/

/-- The calls a verb makes. -/
structure Client (σ : Type) where
  list : σ → Except ListError (List ProcessInfo)
  send : σ → String → σ × Except String Response

/-- How a command ends. -/
inductive Exit where
  | help
  | refused (e : String)
  | reported (r : Report)

/-- The error a command returns. -/
def Exit.err : Exit → Option String
  | help => none
  | refused e => some e
  | reported r => r.err

section Command

variable {σ : Type} (v : Verb) (client : Client σ)

/-- The loop over the targets. -/
def requests (s : σ) (rep : Report) : List String → σ × Report
  | [] => (s, rep)
  | id :: ids =>
      match client.send s id with
      | (s, answer) => requests s (record v id answer rep) ids

/-- `run`. -/
def run (s : σ) (args : List String) : σ × Exit :=
  if v.wantsHelp args then (s, .help)
  else match v.parse args with
    | .error e => (s, .refused e.message)
    | .ok p =>
        if p.ids = [] ∧ p.ns = "" then (s, .refused "missing process ID or name")
        else match targets (some (client.list s)) p.ids p.ns with
          | .error e => (s, .refused e.toText)
          | .ok ids =>
              match requests v client s { op := v.op } ids with
              | (s, rep) => (s, .reported rep)

end Command

/-- The daemon and how many requests it has got from the command. -/
structure Session where
  daemon : Daemon
  sent : ℕ := 0

/-- What `call` makes of the answer of a handler. -/
def received : Except String Response → Except String Response
  | .ok r => .ok r
  | .error e => .error (remoteText "INTERNAL_ERROR" e)

/-- What becomes of a request, with the error that the client reports: it is handled and answered,
or handled and the answer does not arrive, or it does not get to a handler, because the limiter or
the limit of connections is in the way or the transport fails. -/
inductive Passage where
  | answered
  | lost (e : String)
  | refused (e : String)

def Passage.isHandled : Passage → Bool
  | .refused _ => false
  | _ => true

/-- The way to the daemon, for the list and for each of the requests. -/
structure Network where
  list : Option ListError := none
  request : ℕ → Passage

/-- The process of an id, and its spec file. -/
abbrev Entry : Type := Option Process × Option SpecFile

def entry (d : Daemon) (id : String) : Entry := (d.processes.lookup id, d.specDir.file id)

/-- What becomes of the entry of a process. -/
def Verb.effect : Verb → Entry → Entry
  | .stop, (some p, _) => (some p.userStopped, some (.spec { p.spec with disabled := true }))
  | .delete, (some _, _) => (none, none)
  | .reset, (some p, file) => (some { p with info := { p.info with restarts := 0 } }, file)
  | _, e => e

/-- The files of the specs can be written and removed. -/
structure Writes (h : Host) : Prop where
  saves : h.Saves
  removes : ∀ id, h.specRemoveErr id = none

section Effect

variable {h : Host} {d : Daemon} {id target : String} {p : Process} {v : Verb} {e : Entry}

theorem effect_effect (v : Verb) (e : Entry) : v.effect (v.effect e) = v.effect e := by
  obtain ⟨_ | p, file⟩ := e
  · cases v <;> rfl
  · cases v with
    | stop => simp [Verb.effect, Process.userStopped, Process.markStopped]
    | _ => rfl

end Effect

/-! ### What a target denotes -/

section Denoted

variable {h : Host} {d d' : Daemon} {id k target : String} {v : Verb}

/-- Namespace and name, all that `resolve_id` looks at besides the ids. -/
def label (e : Entry) : Option (String × String) := e.1.map fun p => (p.info.ns, p.info.name)

/-- Nothing in the registry fits the target. -/
def Unmatched (d : Daemon) (target : String) : Prop :=
  match splitOnceAt ':' target with
  | some (ns, name) =>
      ∀ k p, d.processes.lookup k = some p → ¬ (p.info.ns = ns ∧ p.info.name = name)
  | none => ∀ k p, d.processes.lookup k = some p → startsWith target k = false ∧
      p.info.name ≠ target

theorem label_eq_some {ns name : String} : label (entry d k) = some (ns, name) ↔
    ∃ p, d.processes.lookup k = some p ∧ p.info.ns = ns ∧ p.info.name = name := by
  simp [label, entry]

/-- Entries that are still there have kept their labels. -/
def Shrunk (d d' : Daemon) : Prop :=
  ∀ k, label (entry d' k) = label (entry d k) ∨ label (entry d' k) = none

theorem Shrunk.lookup (hd : Shrunk d d') {p' : Process} (hp : d'.processes.lookup k = some p') :
    ∃ p, d.processes.lookup k = some p ∧ p.info.ns = p'.info.ns ∧ p.info.name = p'.info.name := by
  have hl : label (entry d' k) = some (p'.info.ns, p'.info.name) :=
    label_eq_some.mpr ⟨p', hp, rfl, rfl⟩
  obtain h | h := hd k
  · exact label_eq_some.mp (h.symm.trans hl)
  · cases h.symm.trans hl

end Denoted

/-! ### The requests -/

section Requests

variable {h : Host} {d : Daemon} {id target : String} {v : Verb} {net : Network}
  {hosts : ℕ → Host} {t : String × ℕ} {s : Session} {rep : Report}

/-- The process a request is for, if it is handled: a target comes with the number of its
request. -/
def den (net : Network) (hosts : ℕ → Host) (d : Daemon) (t : String × ℕ) : Option String :=
  if (net.request t.2).isHandled then (d.resolveId (hosts t.2) t.1).toOption else none

/-- The daemon after a request. -/
def advance (v : Verb) (net : Network) (hosts : ℕ → Host) (d : Daemon) (t : String × ℕ) : Daemon :=
  if (net.request t.2).isHandled then (v.handler (hosts t.2) d t.1).1 else d

end Requests

/-! ### Targets that denote the same to the end -/

section Steady

variable {d d' : Daemon} {id target : String} {v : Verb} {net : Network} {hosts : ℕ → Host}
  {t : String × ℕ} {ts : List (String × ℕ)}

end Steady

/-! ### What the report says -/

section Report

variable {v : Verb} {net : Network} {hosts : ℕ → Host} {s : Session} {ids : List String}
  {ts : List (String × ℕ)} {t : String × ℕ} {id : String} {results : List Result}
  {m : String → Entry} {den : String × ℕ → Option String} {rep : Report} {e : Entry}

end Report

/-! ### From the command line to the targets -/

section Targets

variable {h h' : Host} {d : Daemon} {ids out : List String} {ns id target : String}

/-- No process is named again, and no literal fits several processes. -/
structure Clear (h : Host) (d : Daemon) (p : ParsedArgs) : Prop where
  once : p.ns = "" → NamedOnce h d p.ids
  clear : ∀ tok ∈ p.ids, ¬ Wildcard tok → (∃ id, Denotes h d tok id) ∨ Unmatched d tok

end Targets

section Commands

variable {v : Verb} {net : Network} {hosts : ℕ → Host} {d d' : Daemon} {out : List String}
  {rep : Report}

end Commands

end Unitpm.Batch
