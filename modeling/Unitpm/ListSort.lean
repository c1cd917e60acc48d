import Unitpm.ShortIds
import Unitpm.Lib.StableSort

/-! # The order of `unitpm list`

`--sort` of `cli::commands::list` takes fields with directions.  `parse_args` reads them and
`sort_processes` can sort by them, but `render_to` calls it without fields, so the rows always come
in the default order.

`rows_sorted_iff`: the rows are in the order that was asked for if and only if no field was given,
or the default order moves the same processes.

The name is compared by its `to_lowercase`, which is a parameter. -/

namespace Unitpm.ListCommand

open Rust.Str StableSort

/-! ### The specification of the order -/

/-- One field used as a sort key, and its direction. -/
structure SortField where
  field : String
  asc : Bool
deriving DecidableEq

structure UsageError where
  message : String
deriving DecidableEq

/-- The last test of a part of the specification. -/
def checkField (field : List Char) (asc : Bool) : Except UsageError SortField :=
  if String.ofList field ∈ ["namespace", "name", "createdAt", "id"] then
    .ok ⟨String.ofList field, asc⟩
  else .error ⟨"invalid sort field: " ++ String.ofList field⟩

section

variable (toLowercase : String → String)

/-- A part of the specification that is not empty. -/
def parseSortPart (trimmed : List Char) : Except UsageError SortField :=
  match splitOnce ':' trimmed with
  | none => checkField trimmed true
  | some (field, rest) =>
      let dir := toLowercase (String.ofList (trim rest))
      if dir = "desc" then checkField (trim field) false
      else if dir = "" ∨ dir = "asc" then checkField (trim field) true
      else .error ⟨"invalid sort direction: " ++ dir⟩

/-- The loop of `parse_sort_spec`. -/
def parseSortParts : List (List Char) → Except UsageError (List SortField)
  | [] => .ok []
  | part :: parts =>
      if trim part = [] then parseSortParts parts
      else do
        let f ← parseSortPart toLowercase (trim part)
        let out ← parseSortParts parts
        return f :: out

/-- `parse_sort_spec`. -/
def parseSortSpec (spec : String) : Except UsageError (List SortField) :=
  if spec = "" then .ok [] else parseSortParts toLowercase (spec.toList.splitOn ',')

/-! ### The arguments -/

/-- `Args`. -/
structure Args where
  showLong : Bool := false
  ns : String := ""
  sortSpec : String := ""
  jsonOutput : Bool := false
  sortFields : List SortField := []

/-- `quote_list`. -/
def quoteList (items : List String) : String := "[" ++ " ".intercalate items ++ "]"

/-- The loop of `parse_args`. -/
def parseFlags (a : Args) : List String → Except UsageError Args
  | [] => .ok a
  | arg :: rest =>
      if arg = "--long" then parseFlags { a with showLong := true } rest
      else if arg = "--json" then parseFlags { a with jsonOutput := true } rest
      else if arg = "--namespace" then
        match rest with
        | [] => .error ⟨"missing value for flag --namespace"⟩
        | value :: rest => parseFlags { a with ns := value } rest
      else if arg = "--sort" then
        match rest with
        | [] => .error ⟨"missing value for flag --sort"⟩
        | value :: rest => parseFlags { a with sortSpec := value } rest
      else if arg = "-h" ∨ arg = "--help" then parseFlags a rest
      else if startsWith "-" arg then
        .error ⟨"Unknown flag: -" ++ String.ofList (arg.toList.dropWhile (· = '-'))⟩
      else .error ⟨"Unexpected arguments: " ++ quoteList (arg :: rest)⟩

/-- `parse_args`. -/
def parseArgs (args : List String) : Except UsageError Args := do
  let a ← parseFlags {} args
  let fields ← parseSortSpec toLowercase a.sortSpec
  return { a with sortFields := fields }

/-- `args_contain_help`. -/
def argsContainHelp (args : List String) : Bool :=
  args.any fun a => a = "-h" ∨ a = "--help" ∨ a = "-help"

/-! ### The order -/

/-- `ord`. -/
def ord (c : Ordering) (asc : Bool) : Ordering := if asc then c else c.swap

/-- `compare_process`. -/
def compareProcess (pi pj : ProcessInfo) (f : SortField) : Option Ordering :=
  let cmp :=
    if f.field = "namespace" then
      some (compare (if pi.ns = "" then defaultNamespace else pi.ns)
        (if pj.ns = "" then defaultNamespace else pj.ns))
    else if f.field = "name" then some (compare (toLowercase pi.name) (toLowercase pj.name))
    else if f.field = "createdAt" then some (compare (pi.createdAt.getD "") (pj.createdAt.getD ""))
    else if f.field = "id" then some (compare pi.id pj.id)
    else none
  cmp.map fun c => ord c f.asc

/-- The comparison in `sort_processes`: the first field in which two processes differ. -/
def compareBy : List SortField → ProcessInfo → ProcessInfo → Ordering
  | [], _, _ => .eq
  | f :: fields, pi, pj =>
      match compareProcess toLowercase pi pj f with
      | some .lt => .lt
      | some .gt => .gt
      | _ => compareBy fields pi pj

/-- The fields of the default order. -/
def defaultFields : List SortField :=
  [⟨"namespace", true⟩, ⟨"name", true⟩, ⟨"createdAt", false⟩, ⟨"id", true⟩]

/-- The fields of the user, or the default ones if there are none. -/
def orDefault (userFields : List SortField) : List SortField :=
  if userFields = [] then defaultFields else userFields

/-- `sort_processes`. -/
def sortProcesses (processes : List ProcessInfo) (userFields : List SortField) :
    List ProcessInfo :=
  sortBy (compareBy toLowercase (orDefault userFields)) processes

/-! ### The command -/

/-- A row of the table: its first column, and the process that the others show. -/
structure Row where
  id : String
  process : ProcessInfo

/-- The id of a row, without highlighting. -/
def rowId (showLong : Bool) (w : ℕ) (p : ProcessInfo) : Option String :=
  if showLong then some p.id else (idPrefix w p.id).map String.ofList

/-- The loop of `render_to`; there is no table if an id would be cut inside of a character. -/
def renderRows (showLong : Bool) (w : ℕ) : List ProcessInfo → Option (List Row)
  | [] => some []
  | p :: processes =>
      match rowId showLong w p with
      | none => none
      | some id => (renderRows showLong w processes).map fun rows => ⟨id, p⟩ :: rows

/-- `render_to`. -/
def renderTo (processes : List ProcessInfo) (showLong : Bool) : Option (List Row) :=
  (shortIdLen processes).bind fun w =>
    -- its `user_fields` is a new vector
    renderRows showLong w (sortProcesses toLowercase processes [])

/-- What `run` ends with. -/
inductive Outcome where
  | help
  | failed (message : String)
  | json (processes : List ProcessInfo)
  | table (rows : List Row)
  | panicked

/-- `run`, with the answer of the daemon. -/
def run (answer : Except String (List ProcessInfo)) (args : List String) : Outcome :=
  if argsContainHelp args then .help
  else
    match parseArgs toLowercase args with
    | .error e => .failed e.message
    | .ok options =>
        match answer with
        | .error e => .failed ("list failed: " ++ e)
        | .ok procs =>
            let procs := filterProcesses procs options.ns
            if options.jsonOutput then .json procs
            else
              match renderTo toLowercase procs options.showLong with
              | none => .panicked
              | some rows => .table rows

/-! ### The comparison is an order -/

theorem transCmp_eq : Std.TransCmp fun _ _ : ProcessInfo => Ordering.eq :=
  { eq_swap := rfl, isLE_trans := fun h _ => h }

theorem transCmp_ord (key : ProcessInfo → String) (asc : Bool) :
    Std.TransCmp fun p q : ProcessInfo => ord (compare (key p) (key q)) asc := by
  have hkey : Std.TransCmp (compareOn key) := inferInstance
  cases asc with
  | true => exact hkey
  | false =>
      have hswap : (fun p q : ProcessInfo => ord (compare (key p) (key q)) false) =
          fun p q => compareOn key q p := by
        funext p q
        exact Std.OrientedCmp.eq_swap.symm
      rw [hswap]
      exact inferInstance

theorem transCmp_field (f : SortField) :
    Std.TransCmp fun p q => (compareProcess toLowercase p q f).getD .eq := by
  unfold compareProcess
  split_ifs
  · exact transCmp_ord (fun p => if p.ns = "" then defaultNamespace else p.ns) f.asc
  · exact transCmp_ord (fun p => toLowercase p.name) f.asc
  · exact transCmp_ord (fun p => p.createdAt.getD "") f.asc
  · exact transCmp_ord ProcessInfo.id f.asc
  · exact transCmp_eq

theorem compareBy_cons (f : SortField) (fields : List SortField) :
    compareBy toLowercase (f :: fields) =
      compareLex (fun p q => (compareProcess toLowercase p q f).getD .eq)
        (compareBy toLowercase fields) := by
  funext p q
  rw [compareBy, compareLex]
  cases compareProcess toLowercase p q f with
  | none => rfl
  | some c => cases c <;> rfl

instance transCmp_compareBy (fields : List SortField) :
    Std.TransCmp (compareBy toLowercase fields) := by
  induction fields with
  | nil => exact transCmp_eq
  | cons f fields ih =>
      have hf := transCmp_field toLowercase f
      rw [compareBy_cons]
      exact inferInstance

/-! ### The rows -/

/-- No id that is shown is cut inside of a character. -/
def IdsCut (showLong : Bool) (processes : List ProcessInfo) : Prop :=
  ∃ w, shortIdLen processes = some w ∧ ∀ p ∈ processes, (rowId showLong w p).isSome

/-- The rows show the filtered processes in the order of the user's fields, or in the default order
if there are none. -/
def RowsSorted (procs : List ProcessInfo) (args : List String) (options : Args) : Prop :=
  ∃ rows, run toLowercase (.ok procs) args = .table rows ∧
    SortedBy (compareBy toLowercase (orDefault options.sortFields))
      (filterProcesses procs options.ns) (rows.map Row.process)

/-- The default order and the one of the fields move the same processes. -/
def SameMoves (fields : List SortField) (processes : List ProcessInfo) : Prop :=
  processes.Pairwise fun p q =>
    (compareBy toLowercase defaultFields p q = .gt ↔ compareBy toLowercase fields p q = .gt)

theorem renderRows_eq_some_iff (showLong : Bool) (w : ℕ) (processes : List ProcessInfo) :
    (∃ rows, renderRows showLong w processes = some rows) ↔
      ∀ p ∈ processes, (rowId showLong w p).isSome := by
  induction processes with
  | nil => simp [renderRows]
  | cons p processes ih =>
      rw [renderRows, List.forall_mem_cons, ← ih]
      cases rowId showLong w p with
      | none => simp
      | some id => simp

theorem processes_of_renderRows {showLong : Bool} {w : ℕ} {processes : List ProcessInfo}
    {rows : List Row} (h : renderRows showLong w processes = some rows) :
    rows.map Row.process = processes := by
  induction processes generalizing rows with
  | nil =>
      obtain rfl := Option.some.inj h
      rfl
  | cons p processes ih =>
      rw [renderRows] at h
      cases hid : rowId showLong w p with
      | none => simp [hid] at h
      | some id =>
          simp only [hid] at h
          obtain ⟨rows, hrows, rfl⟩ := Option.map_eq_some_iff.1 h
          rw [List.map_cons, ih hrows]

theorem renderTo_eq_some_iff (processes : List ProcessInfo) (showLong : Bool) :
    (∃ rows, renderTo toLowercase processes showLong = some rows) ↔ IdsCut showLong processes := by
  have hmem : ∀ p, p ∈ sortProcesses toLowercase processes [] ↔ p ∈ processes := fun p =>
    (sortBy_spec processes).perm.mem_iff
  rw [renderTo, IdsCut]
  cases shortIdLen processes with
  | none => simp
  | some w =>
      simp only [Option.bind_some, renderRows_eq_some_iff, hmem, Option.some.injEq,
        exists_eq_left']

theorem processes_of_renderTo {processes : List ProcessInfo} {showLong : Bool} {rows : List Row}
    (h : renderTo toLowercase processes showLong = some rows) :
    rows.map Row.process = sortProcesses toLowercase processes [] := by
  obtain ⟨w, -, hrows⟩ := Option.bind_eq_some_iff.1 h
  exact processes_of_renderRows hrows

/-- Every id of ASCII characters can be cut. -/
theorem idsCut_of_ascii {processes : List ProcessInfo} (h : ∀ p ∈ processes, Ascii p.id)
    (showLong : Bool) : IdsCut showLong processes := by
  have hids : ∀ id ∈ processes.map ProcessInfo.id, Ascii id := by
    simpa using h
  have hlen : ∀ ls, ∃ w, firstLen (processes.map ProcessInfo.id) ls = some w := by
    intro ls
    induction ls with
    | nil => exact ⟨36, rfl⟩
    | cons l ls ih =>
        obtain ⟨b, hb, -⟩ := collide_eq hids l []
        rw [firstLen, hb]
        cases b with
        | true => exact ih
        | false => exact ⟨l, rfl⟩
  obtain ⟨w, hw⟩ : ∃ w, shortIdLen processes = some w := by
    unfold shortIdLen
    split_ifs
    · exact ⟨minLen, rfl⟩
    · exact hlen _
  refine ⟨w, hw, fun p hp => ?_⟩
  rw [rowId, idPrefix_of_ascii (h p hp)]
  cases showLong <;> rfl

theorem run_eq {args : List String} {options : Args} (hhelp : argsContainHelp args = false)
    (hargs : parseArgs toLowercase args = .ok options) (hjson : options.jsonOutput = false)
    (procs : List ProcessInfo) (rows : List Row) :
    run toLowercase (.ok procs) args = .table rows ↔
      renderTo toLowercase (filterProcesses procs options.ns) options.showLong = some rows := by
  rw [run, hhelp, hargs]
  simp only [Bool.false_eq_true, if_false, hjson]
  cases renderTo toLowercase (filterProcesses procs options.ns) options.showLong <;> simp

/-- **When the rows are in the order that was asked for**: if the ids can be cut, and no field was
given or the default order moves the same processes as the fields. -/
theorem rows_sorted_iff (procs : List ProcessInfo) (args : List String) (options : Args)
    (hhelp : argsContainHelp args = false) (hargs : parseArgs toLowercase args = .ok options)
    (hjson : options.jsonOutput = false) :
    RowsSorted toLowercase procs args options ↔
      IdsCut options.showLong (filterProcesses procs options.ns) ∧
        (options.sortFields = [] ∨
          SameMoves toLowercase options.sortFields (filterProcesses procs options.ns)) := by
  generalize hshown : filterProcesses procs options.ns = shown
  have hdefault : orDefault [] = defaultFields := rfl
  have hmoves : sortBy (compareBy toLowercase defaultFields) shown =
      sortBy (compareBy toLowercase (orDefault options.sortFields)) shown ↔
        options.sortFields = [] ∨ SameMoves toLowercase options.sortFields shown := by
    by_cases hfields : options.sortFields = []
    · simp [hfields, hdefault]
    · rw [orDefault, if_neg hfields, sortBy_eq_iff, SameMoves, or_iff_right hfields]
  rw [RowsSorted, hshown, ← hmoves, ← renderTo_eq_some_iff toLowercase]
  simp only [run_eq toLowercase hhelp hargs hjson, hshown, sortedBy_iff]
  constructor
  · rintro ⟨rows, hrows, hsorted⟩
    rw [processes_of_renderTo toLowercase hrows, sortProcesses, hdefault] at hsorted
    exact ⟨⟨rows, hrows⟩, hsorted⟩
  · rintro ⟨⟨rows, hrows⟩, hsorted⟩
    refine ⟨rows, hrows, ?_⟩
    rw [processes_of_renderTo toLowercase hrows, sortProcesses, hdefault, hsorted]

end

/-! ### Two processes -/

/-- `to_lowercase` of texts of ASCII characters. -/
def asciiLowercase (s : String) : String := String.ofList (s.toList.map Char.toLower)

def apiInfo : ProcessInfo :=
  { id := "11111111-1111-4111-8111-111111111111", name := "api", ns := "default" }

def workerInfo : ProcessInfo :=
  { id := "22222222-2222-4222-8222-222222222222", name := "worker", ns := "default" }

/-- The order by id is that by name, the default one. -/
theorem sortById_sorted :
    RowsSorted asciiLowercase [workerInfo, apiInfo] ["--sort", "id"]
      { sortSpec := "id", sortFields := [⟨"id", true⟩] } :=
  (rows_sorted_iff asciiLowercase [workerInfo, apiInfo] ["--sort", "id"]
    { sortSpec := "id", sortFields := [⟨"id", true⟩] } (by decide +kernel) (by rfl) rfl).2
    ⟨idsCut_of_ascii (by decide +kernel) false, .inr (by unfold SameMoves; decide +kernel)⟩

/-- With `name:desc` the first row is the first by name. -/
theorem sortByNameDesc_not_sorted :
    ¬ RowsSorted asciiLowercase [apiInfo, workerInfo] ["--sort", "name:desc"]
      { sortSpec := "name:desc", sortFields := [⟨"name", false⟩] } := by
  rintro ⟨rows, hrun, hsorted⟩
  have hrows : run asciiLowercase (.ok [apiInfo, workerInfo]) ["--sort", "name:desc"] =
      .table [⟨"11111111", apiInfo⟩, ⟨"22222222", workerInfo⟩] := by rfl
  rw [hrows] at hrun
  obtain rfl := Outcome.table.inj hrun
  exact absurd hsorted.ordered (by decide +kernel)

end Unitpm.ListCommand
