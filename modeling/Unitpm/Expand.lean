import Unitpm.ListSort
import Unitpm.ShortIds

/-! # The targets of a batch verb

`internal/cli/expand`: the tokens of a command line become the ids and names a verb acts on.
Wildcards are expanded through the list of the daemon, everything else is passed on for
`resolve_id` to read.  What comes twice is left out once there is a wildcard, but it is texts that
are compared: a name and the id of its process are two targets.

`targets_eachOnce_iff`: each process selected is denoted by one element of the result exactly when
the tokens themselves name no process again (`NamedOnce`). -/

namespace Unitpm.Expand

open Rust.Str ListCommand

/-! ### The command line -/

/-- A classified positional target. -/
structure Selector where
  ns : String
  allInNs : Bool
  allProcs : Bool

def wildcardAll : String := "*"

def wildcardAllPair : String := "*:*"

/-- `parse_selector`. -/
def parseSelector (tok : String) : Selector :=
  if tok = wildcardAll ∨ tok = wildcardAllPair then ⟨"", false, true⟩
  else match splitOnceAt ':' tok with
    | some (ns, name) =>
        if name = wildcardAll ∧ ns ≠ "" ∧ ns ≠ wildcardAll then ⟨ns, true, false⟩
        else ⟨"", false, false⟩
    | none => ⟨"", false, false⟩

inductive ListError where
  | protocol (m : String)
  | network (m : String)

/-- `Display for ListError`. -/
def ListError.toText : ListError → String
  | protocol m => m
  | network m => m

inductive ExpandError where
  | usage (e : UsageError)
  | list (msg : String)
  | other (msg : String)
deriving DecidableEq

/-- `Display for ExpandError`. -/
def ExpandError.toText : ExpandError → String
  | usage e => e.message
  | list msg => "list failed: " ++ msg
  | other msg => msg

/-- `fetch_list`.  A client is what it answers to `list_processes`. -/
def fetchList (client : Option (Except ListError (List ProcessInfo))) :
    Except ExpandError (List ProcessInfo) :=
  match client with
  | none => .error (.other "internal error: expand requires an IPC client")
  | some (.error e) => .error (.list e.toText)
  | some (.ok procs) => .ok procs

/-- `process_ns`. -/
def processNs (p : ProcessInfo) : String := if p.ns = "" then defaultNamespace else p.ns

/-- The processes of a namespace. -/
def inNamespace (procs : List ProcessInfo) (ns : String) : List ProcessInfo :=
  procs.filter fun p => processNs p == ns

def noProcesses (ns : String) : ExpandError := .other ("no processes in namespace " ++ debug ns)

/-- `expand_namespace`. -/
def expandNamespace (client : Option (Except ListError (List ProcessInfo))) (ns : String) :
    Except ExpandError (List String) :=
  match fetchList client with
  | .error e => .error e
  | .ok procs =>
      let out := (inNamespace procs ns).map ProcessInfo.id
      if out = [] then .error (noProcesses ns) else .ok out

/-- The closure `add`.  The set it asks holds what the result holds. -/
def add (out : List String) (id : String) : List String := if id ∈ out then out else out ++ [id]

/-- The loop over the tokens. -/
def expandTokens (procs : List ProcessInfo) (out : List String) :
    List String → Except ExpandError (List String)
  | [] => .ok out
  | tok :: toks =>
      let sel := parseSelector tok
      if sel.allProcs then
        if procs = [] then .error (.other "no managed processes")
        else expandTokens procs ((procs.map ProcessInfo.id).foldl add out) toks
      else if sel.allInNs then
        if inNamespace procs sel.ns = [] then .error (noProcesses sel.ns)
        else expandTokens procs (((inNamespace procs sel.ns).map ProcessInfo.id).foldl add out) toks
      else expandTokens procs (add out tok) toks

def hasWildcard (ids : List String) : Bool :=
  (ids.map parseSelector).any fun s => s.allInNs || s.allProcs

/-- `targets`. -/
def targets (client : Option (Except ListError (List ProcessInfo))) (ids : List String)
    (ns : String) : Except ExpandError (List String) :=
  if ns ≠ "" then
    if ids ≠ [] then
      .error (.usage ⟨"cannot combine --namespace with positional targets — use one or the other"⟩)
    else expandNamespace client ns
  else if hasWildcard ids = false then .ok ids
  else match fetchList client with
    | .error e => .error e
    | .ok procs => expandTokens procs [] ids

/-! ### What the tokens select -/

/-- A token for every process. -/
def AllToken (tok : String) : Prop := tok = "*" ∨ tok = "*:*"

/-- A token for the processes of `ns`. -/
def NamespaceToken (ns tok : String) : Prop :=
  tok = ns ++ ":*" ∧ ns ≠ "" ∧ ns ≠ "*" ∧ ':' ∉ ns.toList

def Wildcard (tok : String) : Prop := AllToken tok ∨ ∃ ns, NamespaceToken ns tok

/-- The wildcard is one for this process. -/
def Covers (tok : String) (i : ProcessInfo) : Prop :=
  AllToken tok ∨ NamespaceToken (processNs i) tok

/-- A target is the id of a process, or else what `resolve_id` takes for one. -/
def Denotes (h : Host) (d : Daemon) (target id : String) : Prop :=
  if (d.processes.lookup target).isSome then target = id else d.resolveId h target = .ok id

/-- The token selects the process: it is a wildcard for it, or denotes it. -/
def TokenSelects (h : Host) (d : Daemon) (tok id : String) : Prop :=
  (∃ p, d.processes.lookup id = some p ∧ Covers tok p.info) ∨ (¬ Wildcard tok ∧ Denotes h d tok id)

/-- The command line selects the process. -/
def Selected (h : Host) (d : Daemon) (ids : List String) (ns id : String) : Prop :=
  if ns ≠ "" then ∃ p, d.processes.lookup id = some p ∧ processNs p.info = ns
  else ∃ tok ∈ ids, TokenSelects h d tok id

/-- No two targets denote one process, and what is denoted is what is selected. -/
structure EachOnce (h : Host) (d : Daemon) (ids : List String) (ns : String) (out : List String) :
    Prop where
  once : out.Pairwise fun a b => ∀ id, Denotes h d a id → ¬ Denotes h d b id
  union : ∀ id, (∃ target ∈ out, Denotes h d target id) ↔ Selected h d ids ns id

/-- The tokens name no process again: two literals for one process are the same text, which is left
out where there is a wildcard, and a literal for a process that a wildcard covers is its id. -/
structure NamedOnce (h : Host) (d : Daemon) (ids : List String) : Prop where
  literals : ids.Pairwise fun a b => ¬ Wildcard a → ¬ Wildcard b →
    ∀ id, Denotes h d a id → Denotes h d b id → a = b ∧ ∃ w ∈ ids, Wildcard w
  covered : ∀ tok ∈ ids, ¬ Wildcard tok → ∀ w ∈ ids, ∀ id p, d.processes.lookup id = some p →
    Covers w p.info → Denotes h d tok id → tok = id

/-! ### Classification -/

theorem namespaceToken_iff {ns tok : String} :
    NamespaceToken ns tok ↔ splitOnceAt ':' tok = some (ns, "*") ∧ ns ≠ "" ∧ ns ≠ "*" := by
  constructor
  · rintro ⟨rfl, hne, hstar, hcolon⟩
    have htext : (ns ++ ":*").toList = ns.toList ++ ':' :: ['*'] := by simp
    refine ⟨?_, hne, hstar⟩
    rw [splitOnceAt, htext, splitOnce_append _ hcolon]
    simp
  · rintro ⟨hsplit, hne, hstar⟩
    obtain ⟨⟨k, v⟩, hkv, hpair⟩ := Option.map_eq_some_iff.mp hsplit
    obtain ⟨rfl, hv⟩ := Prod.mk.inj hpair
    obtain ⟨htext, hcolon⟩ := splitOnce_spec hkv
    refine ⟨String.toList_injective ?_, hne, hstar, by simpa using hcolon⟩
    have hv' : v = ['*'] := by simpa using congrArg String.toList hv
    simp [htext, hv']

/-- `parse_selector` tells the three kinds of tokens apart. -/
theorem parseSelector_cases (tok : String) :
    (AllToken tok ∧ parseSelector tok = ⟨"", false, true⟩) ∨
    (∃ ns, ¬ AllToken tok ∧ NamespaceToken ns tok ∧ parseSelector tok = ⟨ns, true, false⟩) ∨
    (¬ Wildcard tok ∧ parseSelector tok = ⟨"", false, false⟩) := by
  unfold parseSelector
  by_cases hall : AllToken tok
  · exact .inl ⟨hall, if_pos hall⟩
  · rw [if_neg (show ¬ (tok = wildcardAll ∨ tok = wildcardAllPair) from hall)]
    cases hsplit : splitOnceAt ':' tok with
    | none =>
        refine .inr (.inr ⟨?_, rfl⟩)
        rintro (h | ⟨ns, hns⟩)
        · exact hall h
        · rw [namespaceToken_iff, hsplit] at hns
          cases hns.1
    | some e =>
        obtain ⟨ns, name⟩ := e
        by_cases hns : name = wildcardAll ∧ ns ≠ "" ∧ ns ≠ wildcardAll
        · refine .inr (.inl ⟨ns, hall, namespaceToken_iff.mpr ⟨?_, hns.2⟩, if_pos hns⟩)
          rw [hsplit, hns.1]
          rfl
        · refine .inr (.inr ⟨?_, if_neg hns⟩)
          rintro (h | ⟨ns', hns'⟩)
          · exact hall h
          · obtain ⟨hsplit', hne⟩ := namespaceToken_iff.mp hns'
            obtain ⟨rfl, rfl⟩ := Prod.mk.inj (Option.some.inj (hsplit.symm.trans hsplit'))
            exact hns ⟨rfl, hne⟩

theorem hasWildcard_iff {ids : List String} : hasWildcard ids = true ↔ ∃ w ∈ ids, Wildcard w := by
  have hone : ∀ tok, ((parseSelector tok).allInNs || (parseSelector tok).allProcs) = true ↔
      Wildcard tok := by
    intro tok
    obtain ⟨hall, he⟩ | ⟨ns, -, hns, he⟩ | ⟨hw, he⟩ := parseSelector_cases tok
    · simp [he, Wildcard, hall]
    · simp [he, show Wildcard tok from .inr ⟨ns, hns⟩]
    · simp [he, hw]
  simp [hasWildcard, hone]

/-! ### The loop -/

section Loop

variable {out : List String} {xs : List String} {x : String}

theorem mem_add {id : String} : x ∈ add out id ↔ x ∈ out ∨ x = id := by
  unfold add
  split_ifs with h
  · constructor
    · exact .inl
    · rintro (hx | rfl)
      · exact hx
      · exact h
  · simp

theorem nodup_add (h : out.Nodup) (id : String) : (add out id).Nodup := by
  unfold add
  split_ifs with hid
  · exact h
  · rw [← List.concat_eq_append]
    exact h.concat hid

theorem mem_foldl_add : x ∈ xs.foldl add out ↔ x ∈ out ∨ x ∈ xs := by
  induction xs generalizing out with
  | nil => simp
  | cons y xs ih => rw [List.foldl_cons, ih, mem_add, List.mem_cons, or_assoc]

theorem nodup_foldl_add (h : out.Nodup) : (xs.foldl add out).Nodup := by
  induction xs generalizing out with
  | nil => exact h
  | cons y xs ih => exact ih (nodup_add h y)

/-- What a token adds: the ids of the processes it covers, or itself. -/
def Adds (procs : List ProcessInfo) (tok x : String) : Prop :=
  (∃ p ∈ procs, p.id = x ∧ Covers tok p) ∨ (¬ Wildcard tok ∧ x = tok)

theorem mem_inNamespace {procs : List ProcessInfo} {ns : String} {p : ProcessInfo} :
    p ∈ inNamespace procs ns ↔ p ∈ procs ∧ processNs p = ns := by
  simp [inNamespace]

/-- One token. -/
theorem expandTokens_cons {procs : List ProcessInfo} {tok : String} {toks res : List String}
    (hn : out.Nodup) (h : expandTokens procs out (tok :: toks) = .ok res) :
    ∃ out', out'.Nodup ∧ (∀ x, x ∈ out' ↔ x ∈ out ∨ Adds procs tok x) ∧
      expandTokens procs out' toks = .ok res := by
  rw [expandTokens] at h
  obtain ⟨hall, he⟩ | ⟨ns, hall, hns, he⟩ | ⟨hw, he⟩ := parseSelector_cases tok
  · simp only [he, if_true] at h
    split_ifs at h
    refine ⟨_, nodup_foldl_add hn, fun x => ?_, h⟩
    have hw : Wildcard tok := .inl hall
    simp [mem_foldl_add, Adds, hw, show ∀ p, Covers tok p from fun _ => .inl hall]
  · simp only [he, if_true, Bool.false_eq_true, if_false] at h
    split_ifs at h
    refine ⟨_, nodup_foldl_add hn, fun x => ?_, h⟩
    have hw : Wildcard tok := .inr ⟨ns, hns⟩
    have hcovers : ∀ p, Covers tok p ↔ processNs p = ns := by
      intro p
      constructor
      · rintro (h | h)
        · exact absurd h hall
        · have := (namespaceToken_iff.mp h).1.symm.trans (namespaceToken_iff.mp hns).1
          exact (Prod.mk.inj (Option.some.inj this)).1
      · rintro rfl
        exact .inr hns
    simp only [mem_foldl_add, Adds, hw, not_true_eq_false, false_and, or_false, hcovers,
      List.mem_map, mem_inNamespace]
    grind
  · simp only [he, Bool.false_eq_true, if_false] at h
    refine ⟨_, nodup_add hn tok, fun x => ?_, h⟩
    have hcovers : ∀ p, ¬ Covers tok p := by
      rintro p (h | h)
      · exact hw (.inl h)
      · exact hw (.inr ⟨_, h⟩)
    simp [mem_add, Adds, hw, hcovers]

/-- **The loop over the tokens**: no text twice, and what each token adds. -/
theorem expandTokens_ok {procs : List ProcessInfo} {toks res : List String} (hn : out.Nodup)
    (h : expandTokens procs out toks = .ok res) :
    res.Nodup ∧ ∀ x, x ∈ res ↔ x ∈ out ∨ ∃ tok ∈ toks, Adds procs tok x := by
  induction toks generalizing out with
  | nil =>
      obtain rfl := Except.ok.inj h
      simp [hn]
  | cons tok toks ih =>
      obtain ⟨out', hn', hmem, hrest⟩ := expandTokens_cons hn h
      obtain ⟨hres, hmem'⟩ := ih hn' hrest
      refine ⟨hres, fun x => ?_⟩
      simp only [hmem', hmem, List.mem_cons, exists_eq_or_imp, or_assoc]

end Loop

/-! ### What the result denotes -/

section Result

variable {h h' : Host} {d : Daemon} {ids out : List String} {ns target id : String} {p : Process}

theorem denotes_of_lookup (hp : d.processes.lookup target = some p) :
    Denotes h d target id ↔ target = id := by
  simp [Denotes, hp]

theorem adds_list_iff {tok x : String} : Adds (d.list h) tok x ↔
    (∃ p, d.processes.lookup x = some p ∧ Covers tok p.info) ∨ (¬ Wildcard tok ∧ x = tok) := by
  unfold Adds
  refine or_congr_left ?_
  constructor
  · rintro ⟨i, hi, rfl, hcovers⟩
    obtain ⟨p, hp, rfl⟩ := Daemon.mem_list.mp hi
    exact ⟨p, hp, hcovers⟩
  · rintro ⟨p, hp, hcovers⟩
    have hid := Registry.info_id hp
    exact ⟨p.info, Daemon.mem_list.mpr ⟨p, by rw [hid]; exact hp, rfl⟩, hid, hcovers⟩

/-- A list of ids of processes denotes these, each once. -/
theorem eachOnce_of_ids (hn : out.Nodup)
    (hout : ∀ x, x ∈ out ↔ ∃ p, d.processes.lookup x = some p ∧ processNs p.info = ns)
    (hns : ns ≠ "") : EachOnce h d ids ns out := by
  have hdenotes : ∀ x ∈ out, ∀ id, Denotes h d x id ↔ x = id := by
    intro x hx id
    obtain ⟨p, hp, -⟩ := (hout x).mp hx
    exact denotes_of_lookup hp
  constructor
  · refine hn.imp_of_mem fun {a b} ha hb hne id hda hdb => hne ?_
    rw [(hdenotes a ha id).mp hda, (hdenotes b hb id).mp hdb]
  · intro id
    rw [Selected, if_pos hns, ← hout]
    constructor
    · rintro ⟨x, hx, hd⟩
      rwa [← (hdenotes x hx id).mp hd]
    · exact fun hid => ⟨id, hid, (hdenotes id hid id).mpr rfl⟩

/-- Literals are passed on as they are. -/
theorem eachOnce_literals_iff (hw : ¬ ∃ w ∈ ids, Wildcard w) :
    EachOnce h d ids "" ids ↔ NamedOnce h d ids := by
  have hlit : ∀ tok ∈ ids, ¬ Wildcard tok := fun tok htok hwild => hw ⟨tok, htok, hwild⟩
  have hcovers : ∀ tok ∈ ids, ∀ i, ¬ Covers tok i := by
    rintro tok htok i (hc | hc)
    · exact hlit tok htok (.inl hc)
    · exact hlit tok htok (.inr ⟨_, hc⟩)
  constructor
  · rintro ⟨honce, -⟩
    refine ⟨honce.imp fun {a b} hab _ _ id hda hdb => absurd hdb (hab id hda), ?_⟩
    exact fun _ _ _ w hwild id p _ hc => absurd hc (hcovers w hwild p.info)
  · rintro ⟨hliterals, -⟩
    refine ⟨hliterals.imp_of_mem fun {a b} ha hb hab id hda hdb => ?_, fun id => ?_⟩
    · exact hw (hab (hlit a ha) (hlit b hb) id hda hdb).2
    · simp only [Selected, ne_eq, not_true_eq_false, if_false]
      refine exists_congr fun tok => and_congr_right fun htok => ?_
      rw [TokenSelects]
      constructor
      · exact fun hd => .inr ⟨hlit tok htok, hd⟩
      · rintro (⟨p, -, hc⟩ | ⟨-, hd⟩)
        · exact absurd hc (hcovers tok htok p.info)
        · exact hd

/-- With a wildcard, two different targets denote one process only where one of them is a literal
that the tokens should not have had. -/
theorem eachOnce_expanded_iff (hw : ∃ w ∈ ids, Wildcard w) (hn : out.Nodup)
    (hout : ∀ x, x ∈ out ↔ ∃ tok ∈ ids, Adds (d.list h') tok x) :
    EachOnce h d ids "" out ↔ NamedOnce h d ids := by
  simp only [adds_list_iff] at hout
  have hlisted : ∀ w ∈ ids, ∀ id p, d.processes.lookup id = some p → Covers w p.info → id ∈ out :=
    fun w hwild id p hp hc => (hout id).mpr ⟨w, hwild, .inl ⟨p, hp, hc⟩⟩
  have hliteral : ∀ tok ∈ ids, ¬ Wildcard tok → tok ∈ out :=
    fun tok htok hlit => (hout tok).mpr ⟨tok, htok, .inr ⟨hlit, rfl⟩⟩
  constructor
  · rintro ⟨honce, -⟩
    have hsymm : Std.Symm fun a b : String => ∀ id, Denotes h d a id → ¬ Denotes h d b id :=
      ⟨fun a b hab id hdb hda => hab id hda hdb⟩
    have heq : ∀ a ∈ out, ∀ b ∈ out, ∀ id, Denotes h d a id → Denotes h d b id → a = b := by
      intro a ha b hb id hda hdb
      by_contra hne
      exact honce.forall ha hb hne id hda hdb
    constructor
    · refine List.pairwise_of_forall_mem_list fun a ha b hb hlita hlitb id hda hdb => ?_
      exact ⟨heq a (hliteral a ha hlita) b (hliteral b hb hlitb) id hda hdb, hw⟩
    · intro tok htok hlit w hwild id p hp hc hd
      exact heq tok (hliteral tok htok hlit) id (hlisted w hwild id p hp hc) id hd
        ((denotes_of_lookup hp).mpr rfl)
  · rintro ⟨hliterals, hcovered⟩
    have hsymm : Std.Symm fun a b : String => ¬ Wildcard a → ¬ Wildcard b →
        ∀ id, Denotes h d a id → Denotes h d b id → a = b ∧ ∃ w ∈ ids, Wildcard w :=
      ⟨fun a b hab hb ha id hdb hda => ⟨(hab ha hb id hda hdb).1.symm, hw⟩⟩
    constructor
    · refine hn.imp_of_mem fun {a b} ha hb hne id hda hdb => hne ?_
      obtain ⟨s, hs, ⟨p, hp, hc⟩ | ⟨hlita, rfl⟩⟩ := (hout a).mp ha
      · obtain rfl := (denotes_of_lookup hp).mp hda
        obtain ⟨t, ht, ⟨q, hq, -⟩ | ⟨hlitb, rfl⟩⟩ := (hout b).mp hb
        · exact ((denotes_of_lookup hq).mp hdb).symm
        · exact (hcovered b ht hlitb s hs a p hp hc hdb).symm
      · obtain ⟨t, ht, ⟨q, hq, hc⟩ | ⟨hlitb, rfl⟩⟩ := (hout b).mp hb
        · obtain rfl := (denotes_of_lookup hq).mp hdb
          exact hcovered a hs hlita t ht b q hq hc hda
        · by_contra hab
          exact hab (hliterals.forall hs ht hab hlita hlitb id hda hdb).1
    · intro id
      simp only [Selected, ne_eq, not_true_eq_false, if_false]
      constructor
      · rintro ⟨x, hx, hd⟩
        obtain ⟨tok, htok, ⟨p, hp, hc⟩ | ⟨hlit, rfl⟩⟩ := (hout x).mp hx
        · obtain rfl := (denotes_of_lookup hp).mp hd
          exact ⟨tok, htok, .inl ⟨p, hp, hc⟩⟩
        · exact ⟨x, htok, .inr ⟨hlit, hd⟩⟩
      · rintro ⟨tok, htok, ⟨p, hp, hc⟩ | ⟨hlit, hd⟩⟩
        · exact ⟨id, hlisted tok htok id p hp hc, (denotes_of_lookup hp).mpr rfl⟩
        · exact ⟨tok, hliteral tok htok hlit, hd⟩

theorem fetchList_ok {client : Option (Except ListError (List ProcessInfo))}
    {procs : List ProcessInfo} (hok : fetchList client = .ok procs) :
    client = some (.ok procs) := by
  unfold fetchList at hok
  split at hok
  · cases hok
  · cases hok
  · rw [Except.ok.inj hok]

/-- `--namespace`. -/
theorem eachOnce_expandNamespace {client : Option (Except ListError (List ProcessInfo))}
    (hclient : ∀ procs, client = some (.ok procs) → procs = d.list h') (hns : ns ≠ "")
    (hok : expandNamespace client ns = .ok out) : EachOnce h d ids ns out := by
  unfold expandNamespace at hok
  cases hfetch : fetchList client with
  | error e =>
      rw [hfetch] at hok
      cases hok
  | ok procs =>
      obtain rfl := hclient procs (fetchList_ok hfetch)
      simp only [hfetch] at hok
      split_ifs at hok
      obtain rfl := Except.ok.inj hok
      apply eachOnce_of_ids ?_ ?_ hns
      · exact (Daemon.nodup_ids_list h' d).sublist (List.filter_sublist.map ProcessInfo.id)
      · intro x
        simp only [List.mem_map, mem_inNamespace]
        constructor
        · rintro ⟨i, ⟨hi, hin⟩, rfl⟩
          obtain ⟨p, hp, rfl⟩ := Daemon.mem_list.mp hi
          exact ⟨p, hp, hin⟩
        · rintro ⟨p, hp, hin⟩
          have hid := Registry.info_id hp
          exact ⟨p.info, ⟨Daemon.mem_list.mpr ⟨p, by rw [hid]; exact hp, rfl⟩, hin⟩, hid⟩

/-- **Targets and processes.** Where the list is that of the daemon, no two targets denote one
process and what they denote is what the command line selects, exactly when `--namespace` is used
or the tokens name no process again. -/
theorem targets_eachOnce_iff (h h' : Host) (d : Daemon)
    (client : Option (Except ListError (List ProcessInfo))) (ids : List String) (ns : String)
    (out : List String) (hclient : ∀ procs, client = some (.ok procs) → procs = d.list h')
    (hok : targets client ids ns = .ok out) :
    EachOnce h d ids ns out ↔ (ns = "" → NamedOnce h d ids) := by
  unfold targets at hok
  by_cases hns : ns = ""
  · subst hns
    rw [if_neg (by simp)] at hok
    refine Iff.trans ?_ (forall_prop_of_true rfl).symm
    by_cases hwild : hasWildcard ids = false
    · rw [if_pos hwild] at hok
      obtain rfl := Except.ok.inj hok
      apply eachOnce_literals_iff
      rw [← hasWildcard_iff, hwild]
      simp
    · rw [if_neg hwild] at hok
      cases hfetch : fetchList client with
      | error e =>
          rw [hfetch] at hok
          cases hok
      | ok procs =>
          obtain rfl := hclient procs (fetchList_ok hfetch)
          simp only [hfetch] at hok
          obtain ⟨hn, hmem⟩ := expandTokens_ok List.nodup_nil hok
          have hout : ∀ x, x ∈ out ↔ ∃ tok ∈ ids, Adds (d.list h') tok x := by simpa using hmem
          exact eachOnce_expanded_iff (hasWildcard_iff.mp (by simpa using hwild)) hn hout
  · rw [if_pos hns] at hok
    split_ifs at hok
    refine ⟨fun _ hempty => absurd hempty hns, fun _ => eachOnce_expandNamespace hclient hns hok⟩

end Result

/-- A daemon with the process `api` of the namespace `default`. -/
def apiDaemon : Daemon := { processes := .insert .empty Logs.oneProcess }

/-- The id of a process next to a wildcard for it is left out. -/
theorem targets_id_once :
    targets (some (.ok (apiDaemon.list userHost))) ["default:*", demoId] "" = .ok [demoId] ∧
      EachOnce userHost apiDaemon ["default:*", demoId] "" [demoId] := by
  have hok : targets (some (.ok (apiDaemon.list userHost))) ["default:*", demoId] "" =
      .ok [demoId] := by
    decide +kernel
  have hwild : Wildcard "default:*" :=
    .inr ⟨"default", namespaceToken_iff.mpr (by decide +kernel)⟩
  have hlookup : apiDaemon.processes.lookup demoId = some Logs.oneProcess := by decide +kernel
  refine ⟨hok, (targets_eachOnce_iff userHost userHost apiDaemon
    (some (.ok (apiDaemon.list userHost))) ["default:*", demoId] "" [demoId] ?_ hok).mpr
    fun _ => ⟨?_, ?_⟩⟩
  · rintro procs hprocs
    exact (Except.ok.inj (Option.some.inj hprocs)).symm
  · simp [hwild]
  · intro tok htok hlit _ _ id _ _ _ hd
    obtain rfl | rfl : tok = "default:*" ∨ tok = demoId := by simpa using htok
    · exact absurd hwild hlit
    · exact (denotes_of_lookup hlookup).mp hd

/-- The name of a process next to a wildcard for it: the process is denoted twice. -/
theorem targets_name_twice :
    targets (some (.ok (apiDaemon.list userHost))) ["default:*", "api"] "" =
      .ok [demoId, "api"] ∧
    Denotes userHost apiDaemon demoId demoId ∧ Denotes userHost apiDaemon "api" demoId ∧
    ¬ EachOnce userHost apiDaemon ["default:*", "api"] "" [demoId, "api"] := by
  have hid : Denotes userHost apiDaemon demoId demoId := by
    unfold Denotes
    decide +kernel
  have hname : Denotes userHost apiDaemon "api" demoId := by
    unfold Denotes
    decide +kernel
  refine ⟨by decide +kernel, hid, hname, fun h => ?_⟩
  exact (List.pairwise_cons.mp h.once).1 "api" (by simp) demoId hid hname

end Unitpm.Expand
