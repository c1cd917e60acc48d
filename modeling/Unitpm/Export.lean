import Unitpm.Manifest
import Mathlib.Algebra.BigOperators.Group.List.Basic
import Mathlib.Algebra.GroupWithZero.Nat

/-! # Exporting applications

`cli::commands::export`: the specs of a namespace written as the apps of a `unitpm.yml`, which
`unitpm apply` reads back with `to_app_specs`.  The YAML in between is taken to carry strings,
numbers and lists faithfully: a field that the writer skips is read back as its default
(`YamlApp.read`).

The command line is written with the words joined by blanks and read by the tokenizer of
manifests.  `tokenizeCommand_join` says which words survive that. -/

namespace Unitpm.Manifest

open Rust.Str

attribute [local simp] tokenizeFrom

/-! ### Words and command lines -/

/-- A word that the tokenizer takes as it stands. -/
def plainWord (w : String) : Bool :=
  w ≠ "" && w.toList.all fun c => !isWhitespace c && c ≠ '\'' && c ≠ '"'

/-- Nothing but empty pairs of quotes. -/
def emptyQuotes : List Char → Bool
  | [] => true
  | [_] => false
  | c :: d :: l => decide (c = '\'' ∨ c = '"') && decide (d = c) && emptyQuotes l

/-- Nothing but white space and empty pairs of quotes. -/
def blank : List Char → Bool
  | [] => true
  | [c] => isWhitespace c
  | c :: d :: l =>
      if (c = '\'' ∨ c = '"') ∧ d = c then blank l else isWhitespace c && blank (d :: l)

/-- The length of the words, each with a separator after it. -/
def size (ws : List String) : ℕ := (ws.map fun w => w.toList.length + 1).sum

@[simp] theorem size_append (ws vs : List String) : size (ws ++ vs) = size ws + size vs := by
  simp [size]

theorem size_pushToken (args : List String) (cur : List Char) :
    size (pushToken args cur) = size args + if cur = [] then 0 else cur.length + 1 := by
  unfold pushToken
  split <;> simp [size]

theorem size_pushToken_le (args : List String) (cur : List Char) :
    size (pushToken args cur) ≤ size args + cur.length + 1 := by
  rw [size_pushToken]
  split <;> omega

/-- The tokenizer adds nothing: between quotes it will still drop the closing one. -/
theorem size_tokenizeFrom {st : TokenState} {args res : List String} {cur l : List Char}
    (h : tokenizeFrom st args cur l = .ok res) :
    size res ≤ size args + cur.length + l.length + if st = .normal then 1 else 0 := by
  fun_induction tokenizeFrom st args cur l with
  | case1 args cur =>
      obtain rfl := Except.ok.inj h
      simpa using size_pushToken_le args cur
  | case2 | case3 => cases h
  | case4 args cur r l hr ih =>
      have := ih h
      have := size_pushToken_le args cur
      simp only [List.length_nil, List.length_cons, if_true] at *
      omega
  | case5 | case6 | case7 | case8 | case9 | case10 | case12 | case14 =>
      rename_i ih
      have := ih h
      simp only [List.length_append, List.length_cons, List.length_nil, if_true, reduceCtorEq,
        if_false] at *
      omega
  | case11 | case13 => cases h

/-- If nothing but one character after each word is lost, there were no quotes. -/
theorem not_quote_of_size {args res : List String} {cur l : List Char}
    (h : tokenizeFrom .normal args cur l = .ok res)
    (hs : size res = size args + cur.length + l.length + 1) :
    ∀ c ∈ l, c ≠ '\'' ∧ c ≠ '"' := by
  induction l generalizing args cur with
  | nil => simp
  | cons r l ih =>
      rw [tokenizeFrom] at h
      rw [List.length_cons] at hs
      split at h
      · rename_i hr
        have hle := size_tokenizeFrom h
        have hp := size_pushToken_le args cur
        simp only [List.length_nil, if_true] at hle
        have hl := ih h (by simp only [List.length_nil]; omega)
        intro c hc
        rcases List.mem_cons.mp hc with rfl | hc
        · constructor <;> rintro rfl <;> exact absurd hr (by decide)
        · exact hl c hc
      · split at h
        · have hle := size_tokenizeFrom h
          simp only [reduceCtorEq, if_false] at hle
          omega
        · split at h
          · have hle := size_tokenizeFrom h
            simp only [reduceCtorEq, if_false] at hle
            omega
          · rename_i h1 h2
            have hl := ih h (by simp only [List.length_append, List.length_cons,
              List.length_nil]; omega)
            intro c hc
            rcases List.mem_cons.mp hc with rfl | hc
            · exact ⟨h1, h2⟩
            · exact hl c hc

theorem forall_pushToken {P : String → Prop} {args : List String} {cur : List Char}
    (ha : ∀ w ∈ args, P w) (hc : cur ≠ [] → P (String.ofList cur)) :
    ∀ w ∈ pushToken args cur, P w := by
  unfold pushToken
  split
  · exact ha
  · rename_i hne
    intro w hw
    rcases List.mem_append.mp hw with hw | hw
    · exact ha w hw
    · obtain rfl : w = String.ofList cur := by simpa using hw
      exact hc hne

theorem ne_empty_of_mem_tokenizeFrom {st : TokenState} {args res : List String}
    {cur l : List Char} (h : tokenizeFrom st args cur l = .ok res) (ha : ∀ w ∈ args, w ≠ "") :
    ∀ w ∈ res, w ≠ "" := by
  fun_induction tokenizeFrom st args cur l with
  | case1 args cur =>
      obtain rfl := Except.ok.inj h
      exact forall_pushToken ha (by simp)
  | case2 | case3 | case11 | case13 => cases h
  | case4 args cur r l hr ih => exact ih h (forall_pushToken ha (by simp))
  | case5 | case6 | case7 | case8 | case9 | case10 | case12 | case14 =>
      rename_i ih
      exact ih h ha

/-- Without quotes, no token has white space. -/
theorem not_whitespace_of_mem_tokenizeFrom {args res : List String} {cur l : List Char}
    (h : tokenizeFrom .normal args cur l = .ok res) (hl : ∀ c ∈ l, c ≠ '\'' ∧ c ≠ '"')
    (ha : ∀ w ∈ args, ∀ c ∈ w.toList, isWhitespace c = false)
    (hc : ∀ c ∈ cur, isWhitespace c = false) :
    ∀ w ∈ res, ∀ c ∈ w.toList, isWhitespace c = false := by
  induction l generalizing args cur with
  | nil =>
      obtain rfl := Except.ok.inj h
      exact forall_pushToken ha fun _ => by simpa using hc
  | cons r l ih =>
      have hr := hl r (by simp)
      have hl' : ∀ c ∈ l, c ≠ '\'' ∧ c ≠ '"' := fun c hc => hl c (by simp [hc])
      rw [tokenizeFrom] at h
      split at h
      · exact ih h hl' (forall_pushToken ha fun _ => by simpa using hc) (by simp)
      · rename_i hw
        rw [if_neg hr.1, if_neg hr.2] at h
        apply ih h hl' ha
        intro c hm
        rcases List.mem_append.mp hm with hm | hm
        · exact hc c hm
        · obtain rfl : c = r := by simpa using hm
          simpa using hw

/-! ### Words that survive -/

theorem plainWord_iff {w : String} : plainWord w = true ↔
    w ≠ "" ∧ (∀ c ∈ w.toList, isWhitespace c = false) ∧ ∀ c ∈ w.toList, c ≠ '\'' ∧ c ≠ '"' := by
  simp only [plainWord, Bool.and_eq_true, decide_eq_true_eq, List.all_eq_true, Bool.not_eq_true']
  constructor
  · rintro ⟨h, hc⟩
    exact ⟨h, fun c hm => (hc c hm).1.1, fun c hm => ⟨(hc c hm).1.2, (hc c hm).2⟩⟩
  · rintro ⟨h, hw, hq⟩
    exact ⟨h, fun c hm => ⟨⟨hw c hm, (hq c hm).1⟩, (hq c hm).2⟩⟩

theorem mem_joinWith {ws : List (List Char)} {w : List Char} {c : Char} (hw : w ∈ ws)
    (hc : c ∈ w) : c ∈ joinWith ' ' ws := by
  induction ws with
  | nil => cases hw
  | cons v ws ih =>
      cases ws with
      | nil =>
          obtain rfl : w = v := by simpa using hw
          simpa [joinWith] using hc
      | cons u ws =>
          rw [joinWith_cons_cons, List.mem_append, List.mem_cons]
          rcases List.mem_cons.mp hw with rfl | hw
          · exact Or.inl hc
          · exact Or.inr (Or.inr (ih hw))

theorem length_joinWith {ws : List String} (h : ws ≠ []) :
    (joinWith ' ' (ws.map String.toList)).length + 1 = size ws := by
  induction ws with
  | nil => exact absurd rfl h
  | cons w ws ih =>
      cases ws with
      | nil => simp [joinWith, size]
      | cons v ws =>
          have := ih (by simp)
          simp only [List.map_cons, joinWith_cons_cons, List.length_append,
            List.length_cons] at this ⊢
          simp only [size, List.map_cons, List.sum_cons] at this ⊢
          omega

theorem tokenizeFrom_plain (args : List String) (cur l : List Char) {w : List Char}
    (hw : ∀ c ∈ w, isWhitespace c = false) (hq : ∀ c ∈ w, c ≠ '\'' ∧ c ≠ '"') :
    tokenizeFrom .normal args cur (w ++ l) = tokenizeFrom .normal args (cur ++ w) l := by
  induction w generalizing cur with
  | nil => simp
  | cons c w ih =>
      have hc := hq c (by simp)
      rw [List.cons_append, tokenizeFrom, if_neg (by simp [hw c (by simp)]), if_neg hc.1,
        if_neg hc.2, ih _ (fun d hd => hw d (by simp [hd])) fun d hd => hq d (by simp [hd])]
      simp

theorem tokenizeFrom_joinWith (args : List String) {ws : List String}
    (h : ∀ w ∈ ws, plainWord w = true) :
    tokenizeFrom .normal args [] (joinWith ' ' (ws.map String.toList)) = .ok (args ++ ws) := by
  rw [tokenizeFrom_joinWith_map args, List.filter_eq_self.mpr]
  · intro w hw
    simpa using (plainWord_iff.mp (h w hw)).1
  · intro w hw args l
    obtain ⟨-, hplain, hq⟩ := plainWord_iff.mp (h w hw)
    rw [tokenizeFrom_plain args [] l hplain hq, List.nil_append]

/-! ### Lines without a token -/

theorem tokenizeFrom_ne_nil {st : TokenState} {args res : List String} {cur l : List Char}
    (h : tokenizeFrom st args cur l = .ok res) (hne : args ≠ [] ∨ cur ≠ []) : res ≠ [] := by
  have hpush : ∀ {args : List String} {cur : List Char}, args ≠ [] ∨ cur ≠ [] →
      pushToken args cur ≠ [] := by
    intro args cur h
    unfold pushToken
    split <;> simp_all
  fun_induction tokenizeFrom st args cur l with
  | case1 args cur =>
      obtain rfl := Except.ok.inj h
      exact hpush hne
  | case2 | case3 | case11 | case13 => cases h
  | case4 args cur r l hr ih => exact ih h (Or.inl (hpush hne))
  | case5 | case6 | case8 | case10 =>
      rename_i ih
      exact ih h hne
  | case7 | case9 | case12 | case14 =>
      rename_i ih
      exact ih h (Or.inr (by simp))

theorem not_nil_of_double {st : TokenState} {args : List String} {cur l : List Char}
    (hst : st = .double) (h : ∀ l', l ≠ '"' :: l') : tokenizeFrom st args cur l ≠ .ok [] := by
  fun_cases tokenizeFrom st args cur l with
  | case1 | case2 | case4 | case5 | case6 | case7 | case8 | case9 => cases hst
  | case3 | case11 | case13 => exact nofun
  | case10 args cur l => exact absurd rfl (h l)
  | case12 | case14 => exact fun hr => tokenizeFrom_ne_nil hr (Or.inr (by simp)) rfl

theorem isWhitespace_quote {c : Char} (h : c = '\'' ∨ c = '"') : isWhitespace c = false := by
  rcases h with rfl | rfl <;> decide

theorem tokenizeFrom_quotes {c : Char} (h : c = '\'' ∨ c = '"') (l : List Char) :
    tokenizeFrom .normal [] [] (c :: c :: l) = tokenizeFrom .normal [] [] l := by
  rw [tokenizeFrom, if_neg (by simp [isWhitespace_quote h])]
  rcases h with rfl | rfl
  · simp
  · simp

/-- Any other character outside quotes that is not white space leads to a token or to an error. -/
theorem tokenizeFrom_cons_ne_nil {c : Char} {l : List Char} (hc : isWhitespace c = false)
    (h : (c = '\'' ∨ c = '"') → ∀ l', l ≠ c :: l') :
    tokenizeFrom .normal [] [] (c :: l) ≠ .ok [] := by
  rw [tokenizeFrom, if_neg (by simp [hc])]
  split
  · rename_i hq
    subst hq
    cases l with
    | nil => exact nofun
    | cons d l =>
        have hd : d ≠ '\'' := fun e => h (Or.inl rfl) l (by rw [e])
        rw [tokenizeFrom, if_neg hd]
        exact fun hr => tokenizeFrom_ne_nil hr (Or.inr (by simp)) rfl
  · split
    · rename_i hq
      subst hq
      exact not_nil_of_double rfl (h (Or.inr rfl))
    · exact fun hr => tokenizeFrom_ne_nil hr (Or.inr (by simp)) rfl

/-- The tokenizer finds nothing exactly where there is nothing but white space and empty
quotes. -/
theorem tokenizeFrom_eq_nil_iff (l : List Char) :
    tokenizeFrom .normal [] [] l = .ok [] ↔ blank l = true := by
  fun_induction blank l with
  | case1 => simp [pushToken]
  | case2 c =>
      cases hc : isWhitespace c with
      | true => simp [hc, pushToken]
      | false =>
          simp only [Bool.false_eq_true, iff_false]
          exact tokenizeFrom_cons_ne_nil hc (by simp)
  | case3 c d l h ih => rw [h.2, tokenizeFrom_quotes h.1, ih]
  | case4 c d l h ih =>
      cases hc : isWhitespace c with
      | true =>
          rw [tokenizeFrom, if_pos hc]
          simpa [pushToken] using ih
      | false =>
          have hne : (c = '\'' ∨ c = '"') → ∀ l', d :: l ≠ c :: l' :=
            fun hq l' e => h ⟨hq, (List.cons.inj e).1⟩
          simp only [Bool.false_and, Bool.false_eq_true, iff_false]
          exact tokenizeFrom_cons_ne_nil hc hne

theorem not_whitespace_of_emptyQuotes {w : List Char} (h : emptyQuotes w = true) :
    ∀ c ∈ w, isWhitespace c = false := by
  fun_induction emptyQuotes w with
  | case1 => simp
  | case2 => cases h
  | case3 c d l ih =>
      simp only [Bool.and_eq_true, decide_eq_true_eq] at h
      obtain ⟨⟨hc, rfl⟩, hl⟩ := h
      have hw := isWhitespace_quote hc
      simp only [List.forall_mem_cons]
      exact ⟨hw, hw, ih hl⟩

theorem blank_of_emptyQuotes {w : List Char} (l : List Char) (h : emptyQuotes w = true) :
    blank (w ++ l) = blank l := by
  fun_induction emptyQuotes w with
  | case1 => rfl
  | case2 => cases h
  | case3 c d w ih =>
      simp only [Bool.and_eq_true, decide_eq_true_eq] at h
      rw [List.cons_append, List.cons_append, blank, if_pos h.1, ih h.2]

theorem isWhitespace_or_quotes_of_blank {c : Char} {l : List Char} (h : blank (c :: l) = true) :
    isWhitespace c = true ∨ (c = '\'' ∨ c = '"') ∧ ∃ l', l = c :: l' ∧ blank l' = true := by
  cases l with
  | nil => exact Or.inl (by simpa [blank] using h)
  | cons d l =>
      rw [blank] at h
      split at h
      · rename_i hq
        exact Or.inr ⟨hq.1, l, by rw [hq.2], h⟩
      · exact Or.inl (Bool.and_eq_true_iff.mp h).1

/-- Where a blank line starts with a word, the word is made of empty quotes: a quote is closed
inside the word, since white space follows it. -/
theorem emptyQuotes_of_blank {w l : List Char} (hw : ∀ c ∈ w, isWhitespace c = false)
    (hl : ∀ c ∈ l.head?, isWhitespace c = true) (h : blank (w ++ l) = true) :
    emptyQuotes w = true := by
  fun_induction emptyQuotes w with
  | case1 => rfl
  | case2 c =>
      have hc := hw c (by simp)
      rcases isWhitespace_or_quotes_of_blank h with h | ⟨-, l', rfl, -⟩
      · exact absurd h (by simp [hc])
      · exact absurd (hl c rfl) (by simp [hc])
  | case3 c d w ih =>
      have hc := hw c (by simp)
      rcases isWhitespace_or_quotes_of_blank h with h | ⟨hq, l', he, hb⟩
      · exact absurd h (by simp [hc])
      · obtain ⟨rfl, rfl⟩ := List.cons.inj he
        have := ih (fun x hx => hw x (by simp [hx])) hb
        simpa using ⟨hq, this⟩

theorem blank_cons_space (l : List Char) : blank (' ' :: l) = blank l := by
  cases l with
  | nil => rfl
  | cons c l => simp [blank, show isWhitespace ' ' = true by decide]

theorem blank_joinWith (ws : List (List Char)) (h : ∀ w ∈ ws, emptyQuotes w = true) :
    blank (joinWith ' ' ws) = true := by
  induction ws with
  | nil => rfl
  | cons w ws ih =>
      have hw := h w (by simp)
      have hws := ih fun v hv => h v (by simp [hv])
      cases ws with
      | nil => simpa [joinWith, blank] using blank_of_emptyQuotes [] hw
      | cons v ws =>
          rw [joinWith_cons_cons, blank_of_emptyQuotes _ hw, blank_cons_space]
          exact hws

theorem emptyQuotes_of_blank_joinWith (ws : List (List Char))
    (hw : ∀ w ∈ ws, ∀ c ∈ w, isWhitespace c = false) (h : blank (joinWith ' ' ws) = true) :
    ∀ w ∈ ws, emptyQuotes w = true := by
  induction ws with
  | nil => simp
  | cons w ws ih =>
      have hw' := hw w (by simp)
      have hws' : ∀ v ∈ ws, ∀ c ∈ v, isWhitespace c = false := fun v hv => hw v (by simp [hv])
      cases ws with
      | nil =>
          rw [show joinWith ' ' [w] = w ++ [] by simp [joinWith]] at h
          simpa using emptyQuotes_of_blank hw' (by simp) h
      | cons v ws =>
          rw [joinWith_cons_cons] at h
          have he := emptyQuotes_of_blank hw' (by simp [show isWhitespace ' ' = true by decide]) h
          rw [blank_of_emptyQuotes _ he, blank_cons_space] at h
          intro x hx
          rcases List.mem_cons.mp hx with rfl | hx
          · exact he
          · exact ih hws' h x hx

/-- The words that survive: plain ones, or, where the tokenizer finds nothing and the line is split
at white space instead, empty quotes. -/
def readBack (ws : List String) : Prop :=
  (∀ w ∈ ws, plainWord w = true) ∨ ∀ w ∈ ws, w ≠ "" ∧ emptyQuotes w.toList = true

/-- **Command lines read back.**  Words joined by blanks are tokenized into the same words exactly
where none of them needs quoting. -/
theorem tokenizeCommand_join {cmd : String} (ws : List String) (hne : ws ≠ [])
    (hcmd : cmd.toList = joinWith ' ' (ws.map String.toList)) :
    tokenizeCommand cmd = .ok ws ↔ readBack ws := by
  unfold tokenizeCommand tokenize
  rw [hcmd]
  constructor
  · intro h
    split at h
    · cases h
    · rename_i hnil
      right
      have hws := Except.ok.inj h
      have hw : ∀ w ∈ ws, w.toList ≠ [] ∧ ∀ c ∈ w.toList, isWhitespace c = false := by
        intro w hw
        rw [← hws] at hw
        obtain ⟨v, hv, rfl⟩ := List.mem_map.mp hw
        simpa using of_mem_splitWhitespace hv
      have hq := emptyQuotes_of_blank_joinWith (ws.map String.toList)
        (by simpa using fun w hm => (hw w hm).2) ((tokenizeFrom_eq_nil_iff _).mp hnil)
      intro w hm
      exact ⟨by simpa using (hw w hm).1, hq _ (List.mem_map_of_mem hm)⟩
    · rename_i parts hparts hp
      left
      obtain rfl := Except.ok.inj h
      have hq := not_quote_of_size hp (by
        have := length_joinWith hne
        simp only [size, List.map_nil, List.sum_nil, List.length_nil] at *
        omega)
      have hne' := ne_empty_of_mem_tokenizeFrom hp (by simp)
      have hw := not_whitespace_of_mem_tokenizeFrom hp hq (by simp) (by simp)
      intro w hm
      exact plainWord_iff.mpr ⟨hne' w hm, hw w hm, fun c hc =>
        hq c (mem_joinWith (List.mem_map_of_mem hm) hc)⟩
  · rintro (h | h)
    · rw [tokenizeFrom_joinWith [] h, List.nil_append]
      cases ws with
      | nil => exact absurd rfl hne
      | cons w ws => rfl
    · have hb := blank_joinWith (ws.map String.toList) (by simpa using fun w hm => (h w hm).2)
      rw [(tokenizeFrom_eq_nil_iff _).mpr hb]
      have hs := splitWhitespace_intercalate (ws.map String.toList) (by
        simpa using fun w hm => ⟨(h w hm).1, not_whitespace_of_emptyQuotes (h w hm).2⟩)
      simp only [joinWith, hs, List.map_map]
      simp

end Unitpm.Manifest

namespace Unitpm.Export

open Rust.Str Manifest

/-! ### The exported file -/

structure YamlLogs where
  dir : String
  stdout : String
  stderr : String
  format : String
  timestamp : String

structure YamlRestart where
  policy : String
  maxRestarts : ℤ
  delayMs : ℤ
  backoff : String
  stopOnExit : List ℤ

structure YamlApp where
  name : String
  command : String
  entry : String
  runtime : String
  cwd : String
  env : BTreeMap
  logs : Option YamlLogs
  restart : Option YamlRestart

/-- The command line of an app. -/
def commandLine (cmd : String) (args : List String) : String :=
  if args ≠ [] then cmd ++ " " ++ " ".intercalate args else cmd

/-- The body of the loop of `run`: the mapping of one spec. -/
def exportApp (s : AppSpec) : YamlApp where
  name := s.name
  command :=
    if s.exec.kind = "command" then
      commandLine (orEmpty s.exec.command) (s.exec.args.getD [])
    else ""
  entry :=
    if s.exec.kind = "command" then ""
    else if s.exec.kind = "entry" then orEmpty s.exec.entry else ""
  runtime :=
    if s.exec.kind = "command" then ""
    else if s.exec.kind = "entry" then orEmpty s.exec.runtime else ""
  cwd := orEmpty s.cwd
  env := s.env.getD .empty
  logs := s.logs.map fun logs =>
    { dir := orEmpty logs.dir
      stdout := orEmpty logs.stdout
      stderr := orEmpty logs.stderr
      format := orEmpty logs.format
      timestamp := orEmpty logs.timestamp }
  restart := s.restart.map fun restart =>
    { policy := restart.policy
      maxRestarts := restart.maxRetries.getD 0
      delayMs := restart.backoffMs.getD 0
      backoff := orEmpty restart.backoffType
      stopOnExit := restart.stopOnExit.getD [] }

/-- The app that `manifest::parse` finds in the YAML of an exported app.  A skipped field is read
back as the empty value it was skipped for. -/
def YamlApp.read (app : YamlApp) : AppConfig where
  name := app.name
  command := app.command
  entry := app.entry
  runtime := app.runtime
  cwd := app.cwd
  env := app.env
  restart :=
    match app.restart with
    | none => {}
    | some r =>
        { policy := r.policy
          maxRestarts := r.maxRestarts
          delayMs := r.delayMs
          backoff := r.backoff
          stopOnExit := r.stopOnExit }
  logs :=
    match app.logs with
    | none => {}
    | some l =>
        { dir := l.dir
          stdout := l.stdout
          stderr := l.stderr
          format := l.format
          timestamp := l.timestamp }

/-- What `apply` makes of an exported spec, in a manifest with the namespace `ns`. -/
def reapply (s : AppSpec) (ns : String) : Except ManifestError AppSpec :=
  toAppSpec (exportApp s).read ns

/-! ### The command -/

theorem toList_commandLine (cmd : String) (args : List String) :
    (commandLine cmd args).toList = joinWith ' ' ((cmd :: args).map String.toList) := by
  cases args with
  | nil => simp [commandLine, joinWith]
  | cons a args =>
      rw [commandLine, if_pos (by simp)]
      simp [joinWith, String.toList_intercalate, List.intercalate]

/-- The command, the arguments and the shell flag are those of the spec. -/
def SameCommand (e e' : AppExec) : Prop :=
  e'.command = e.command ∧ e'.args.getD [] = e.args.getD [] ∧ e'.shell = e.shell

theorem exists_toAppSpec_iff (app : AppConfig) (ns : String) (P : AppExec → Prop) :
    (∃ s', toAppSpec app ns = .ok s' ∧ P s'.exec) ↔ ∃ e, buildExec app = .ok e ∧ P e := by
  unfold toAppSpec
  cases buildExec app with
  | error e => simp
  | ok e => simp

theorem buildExec_of_command {app : AppConfig} {e : AppExec} (h : app.command ≠ "") :
    buildExec app = .ok e ↔ ∃ c as, tokenizeCommand app.command = .ok (c :: as) ∧
      e = { kind := "command", command := some c, args := some as } := by
  rw [buildExec, if_pos h]
  cases tokenizeCommand app.command with
  | error err => simp
  | ok parts =>
      cases parts with
      | nil => simp
      | cons c as => simp [eq_comm]

theorem commandLine_eq_empty {cmd : String} {args : List String} :
    commandLine cmd args = "" ↔ cmd = "" ∧ args = [] := by
  cases args with
  | nil => simp [commandLine]
  | cons a args =>
      have h : (commandLine cmd (a :: args)).toList ≠ [] := by
        rw [toList_commandLine, List.map_cons, List.map_cons, joinWith_cons_cons]
        simp
      constructor
      · intro he
        exact absurd (congrArg String.toList he) h
      · rintro ⟨-, ha⟩
        cases ha

theorem ne_empty_of_readBack {c : String} {ws : List String} (h : readBack (c :: ws)) : c ≠ "" := by
  rcases h with h | h
  · exact (plainWord_iff.mp (h c (by simp))).1
  · exact (h c (by simp)).1

/-- **The command survives export and apply** exactly where it is not run by a shell and no word of
it needs quoting. -/
theorem reapply_command_iff (s : AppSpec) (ns : String) (hk : s.exec.kind = "command") :
    (∃ s', reapply s ns = .ok s' ∧ SameCommand s.exec s'.exec) ↔
      s.exec.shell = false ∧
        (s.exec.command = none ∧ s.exec.args.getD [] = [] ∨
          ∃ c, s.exec.command = some c ∧ readBack (c :: s.exec.args.getD [])) := by
  have hline : (exportApp s).read.command =
      commandLine (orEmpty s.exec.command) (s.exec.args.getD []) := by
    simp [exportApp, YamlApp.read, hk]
  rw [reapply, exists_toAppSpec_iff]
  by_cases he : (exportApp s).read.command = ""
  · obtain ⟨hc, ha⟩ := commandLine_eq_empty.mp (hline ▸ he)
    rw [buildExec, if_neg (not_not.mpr he)]
    simp only [Except.ok.injEq, exists_eq_left', SameCommand, Option.getD_none, ha]
    constructor
    · rintro ⟨h1, -, h3⟩
      exact ⟨h3.symm, Or.inl ⟨h1.symm, trivial⟩⟩
    · rintro ⟨hs, ⟨h1, -⟩ | ⟨c, h1, hr⟩⟩
      · exact ⟨h1.symm, trivial, hs.symm⟩
      · rw [h1] at hc
        exact absurd hc (ne_empty_of_readBack hr)
  · have hjoin := tokenizeCommand_join (orEmpty s.exec.command :: s.exec.args.getD [])
      (by simp) ((congrArg String.toList hline).trans (toList_commandLine _ _))
    constructor
    · rintro ⟨e, hb, h1, h2, h3⟩
      obtain ⟨c, as, ht, rfl⟩ := (buildExec_of_command he).mp hb
      refine ⟨h3.symm, Or.inr ⟨c, h1.symm, ?_⟩⟩
      rw [← h1, ← h2] at hjoin
      rw [← h2]
      exact hjoin.mp ht
    · rintro ⟨hs, ⟨h1, h2⟩ | ⟨c, h1, hr⟩⟩
      · rw [hline, h1, h2] at he
        exact absurd rfl he
      · rw [h1] at hjoin
        exact ⟨_, (buildExec_of_command he).mpr ⟨_, _, hjoin.mpr hr, rfl⟩, h1.symm, rfl, hs.symm⟩

/-- `sleep 30` goes through. -/
theorem reapply_command_sleep :
    let s : AppSpec :=
      { id := "", name := "api"
        exec := { kind := "command", command := some "sleep", args := some ["30"] } }
    ∃ s', reapply s "default" = .ok s' ∧ SameCommand s.exec s'.exec :=
  (reapply_command_iff _ _ rfl).mpr ⟨rfl, Or.inr ⟨"sleep", rfl, Or.inl (by decide +kernel)⟩⟩

/-- An argument with a blank in it comes back as two. -/
theorem reapply_splits_argument :
    let s : AppSpec :=
      { id := "", name := "api"
        exec := { kind := "command", command := some "echo", args := some ["hello world"] } }
    reapply s "default" = .ok
        { id := "", name := "api", ns := some "default"
          exec := { kind := "command", command := some "echo", args := some ["hello", "world"] } } ∧
      ¬ ∃ s', reapply s "default" = .ok s' ∧ SameCommand s.exec s'.exec := by
  refine (and_iff_left_of_imp fun h => ?_).mpr (by decide +kernel)
  rintro ⟨s', hs, -, ha, -⟩
  obtain rfl := Except.ok.inj (h.symm.trans hs)
  exact absurd ha (by decide)

/-! ### Supervision and logs -/

structure RestartPolicy where
  policy : String
  maxRetries : ℤ
  backoffMs : ℤ
  backoffType : String
  stopOnExit : List ℤ
deriving DecidableEq

/-- `RestartPolicy::from_spec_or_default`. -/
def RestartPolicy.fromSpecOrDefault : Option AppRestart → RestartPolicy
  | some r =>
      { policy := r.policy
        maxRetries := r.maxRetries.getD 10
        backoffMs := r.backoffMs.getD 2000
        backoffType := r.backoffType.getD "expo"
        stopOnExit := r.stopOnExit.getD [] }
  | none =>
      { policy := "on-failure"
        maxRetries := 10
        backoffMs := 2000
        backoffType := "expo"
        stopOnExit := [] }

/-- A restart section without a value that the manifest reads as absent. -/
def restartKept : Option AppRestart → Prop
  | none => True
  | some r => r.policy ≠ "" ∧ r.maxRetries ≠ some 0 ∧ r.backoffMs ≠ some 0 ∧
      r.backoffType ≠ some ""

/-- The fields of a log section that the manifest has too. -/
def logFields (l : AppLogs) : List (Option String) :=
  [l.dir, l.stdout, l.stderr, l.format, l.timestamp]

/-- A log section without a mode and without an empty value, in which something is set. -/
def logsKept : Option AppLogs → Prop
  | none => True
  | some l => l.mode = "" ∧ (∀ f ∈ logFields l, f ≠ some "") ∧ ∃ f ∈ logFields l, f ≠ none

theorem toAppSpec_sections {app : AppConfig} {ns : String} {s' : AppSpec}
    (h : toAppSpec app ns = .ok s') :
    s'.restart = buildRestart app ∧ s'.logs = buildLogs app.logs := by
  unfold toAppSpec at h
  split at h
  · cases h
  · rw [← Except.ok.inj h]
    exact ⟨rfl, rfl⟩

theorem getD_zero_eq_none {o : Option ℤ} {d : ℤ} (hd : d ≠ 0) :
    (if o.getD 0 = 0 then none else some (o.getD 0)).getD d = o.getD d ↔ o ≠ some 0 := by
  cases o with
  | none => simp
  | some n =>
      by_cases hn : n = 0
      · simp [hn, hd]
      · simp [hn]

theorem getD_nonEmptyStr {o : Option String} {d : String} (hd : d ≠ "") :
    (nonEmptyStr (orEmpty o)).getD d = o.getD d ↔ o ≠ some "" := by
  cases o with
  | none => simp [nonEmptyStr, orEmpty]
  | some s =>
      by_cases hs : s = ""
      · simp [nonEmptyStr, orEmpty, hs, hd]
      · simp [nonEmptyStr, orEmpty, hs]

theorem nonEmptyStr_orEmpty {o : Option String} : nonEmptyStr (orEmpty o) = o ↔ o ≠ some "" := by
  cases o with
  | none => simp [nonEmptyStr, orEmpty]
  | some s => by_cases hs : s = "" <;> simp [nonEmptyStr, orEmpty, hs]

theorem restart_reapply_iff (s : AppSpec) :
    RestartPolicy.fromSpecOrDefault (buildRestart (exportApp s).read) =
      RestartPolicy.fromSpecOrDefault s.restart ↔ restartKept s.restart := by
  cases hr : s.restart with
  | none => simp [exportApp, YamlApp.read, hr, buildRestart, restartKept]
  | some r =>
      simp only [exportApp, YamlApp.read, hr, buildRestart, restartKept, Option.map_some]
      by_cases hp : r.policy = ""
      · simp [hp, RestartPolicy.fromSpecOrDefault]
      · have h1 := getD_zero_eq_none (o := r.maxRetries) (d := 10) (by decide)
        have h2 := getD_zero_eq_none (o := r.backoffMs) (d := 2000) (by decide)
        have h3 := getD_nonEmptyStr (o := r.backoffType) (d := "expo") (by decide)
        have h4 : (if r.stopOnExit.getD [] = [] then none
            else some (r.stopOnExit.getD [])).getD [] = r.stopOnExit.getD [] := by
          split
          · rename_i h
            exact h.symm
          · rfl
        simp only [ne_eq, hp, not_false_eq_true, if_true, RestartPolicy.fromSpecOrDefault,
          RestartPolicy.mk.injEq, true_and, h4, and_true]
        rw [h1, h2, h3]

theorem orEmpty_ne_empty {o : Option String} (h : o ≠ some "") : orEmpty o ≠ "" ↔ o ≠ none := by
  cases o with
  | none => simp [orEmpty]
  | some s => simpa [orEmpty] using h

theorem logs_reapply_iff (s : AppSpec) :
    buildLogs (exportApp s).read.logs = s.logs ↔ logsKept s.logs := by
  cases hl : s.logs with
  | none => simp [exportApp, YamlApp.read, hl, buildLogs, logsKept]
  | some l =>
      obtain ⟨mode, dir, stdout, stderr, format, timestamp⟩ := l
      have hf : ∀ {P : Option String → Prop},
          (∀ f ∈ [dir, stdout, stderr, format, timestamp], P f) ↔
            P dir ∧ P stdout ∧ P stderr ∧ P format ∧ P timestamp := by simp
      simp only [exportApp, YamlApp.read, hl, buildLogs, logsKept, logFields, Option.map_some, hf]
      constructor
      · intro h
        split at h
        · rename_i hany
          simp only [Option.some.injEq, AppLogs.mk.injEq, nonEmptyStr_orEmpty] at h
          obtain ⟨hm, hd, ho, he, hfm, ht⟩ := h
          refine ⟨hm.symm, ⟨hd, ho, he, hfm, ht⟩, ?_⟩
          rw [orEmpty_ne_empty hd, orEmpty_ne_empty ho, orEmpty_ne_empty he, orEmpty_ne_empty hfm,
            orEmpty_ne_empty ht] at hany
          simpa using hany
        · cases h
      · rintro ⟨hm, ⟨hd, ho, he, hfm, ht⟩, hany⟩
        rw [if_pos (by
          rw [orEmpty_ne_empty hd, orEmpty_ne_empty ho, orEmpty_ne_empty he, orEmpty_ne_empty hfm,
            orEmpty_ne_empty ht]
          simpa using hany)]
        simp only [Option.some.injEq, AppLogs.mk.injEq, nonEmptyStr_orEmpty]
        exact ⟨hm.symm, hd, ho, he, hfm, ht⟩

/-- **Supervision and logs survive export and apply** exactly where no value is one that the
manifest takes for an absent one, and the log section has no mode. -/
theorem reapply_sections_iff (s s' : AppSpec) (ns : String) (h : reapply s ns = .ok s') :
    (RestartPolicy.fromSpecOrDefault s'.restart = RestartPolicy.fromSpecOrDefault s.restart ∧
        s'.logs = s.logs) ↔
      restartKept s.restart ∧ logsKept s.logs := by
  obtain ⟨hr, hl⟩ := toAppSpec_sections h
  rw [hr, hl, restart_reapply_iff, logs_reapply_iff]

/-- A spec with a policy of its own and a log directory. -/
def supervisedSpec : AppSpec :=
  { id := "", name := "api", ns := some "default"
    exec := { kind := "command", command := some "sleep", args := some ["30"] }
    logs := some { mode := "", dir := some "/var/log/api" }
    restart := some { policy := "always", maxRetries := some 3 } }

theorem reapply_sections_supervised :
    ∃ s', reapply supervisedSpec "default" = .ok s' ∧
      RestartPolicy.fromSpecOrDefault s'.restart =
        RestartPolicy.fromSpecOrDefault supervisedSpec.restart ∧
      s'.logs = supervisedSpec.logs :=
  have h : reapply supervisedSpec "default" = .ok supervisedSpec := by decide +kernel
  ⟨supervisedSpec, h, (reapply_sections_iff _ _ _ h).mpr
    ⟨by simp [supervisedSpec, restartKept], by simp [supervisedSpec, logsKept, logFields]⟩⟩

/-- What `unitpm start --max-restarts 0 sleep 30` stores: no retry comes back as ten, and the log
section is gone. -/
theorem reapply_retries_zero :
    let s : AppSpec :=
      { id := "", name := "api", ns := some "default"
        exec := { kind := "command", command := some "sleep", args := some ["30"] }
        logs := some { mode := "file" }
        restart := some { policy := "on-failure", maxRetries := some 0, backoffMs := some 2000
                          backoffType := some "expo", stopOnExit := some [] } }
    ∃ s', reapply s "default" = .ok s' ∧
      (RestartPolicy.fromSpecOrDefault s.restart).maxRetries = 0 ∧
      (RestartPolicy.fromSpecOrDefault s'.restart).maxRetries = 10 ∧
      s.logs = some { mode := "file" } ∧ s'.logs = none := by
  refine ⟨{ id := "", name := "api", ns := some "default"
            exec := { kind := "command", command := some "sleep", args := some ["30"] }
            restart := some { policy := "on-failure", backoffMs := some 2000
                              backoffType := some "expo" } }, ?_⟩
  decide +kernel

end Unitpm.Export
