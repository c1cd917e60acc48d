import Mathlib.Algebra.Order.BigOperators.Group.List
import Unitpm.StartSpec

/-! # The tokens after the separator

A `--` among the arguments of `unitpm start` is meant to end the flags: what stands after it is the
command's own.  Three passes look at the arguments before the command is made of them, and only the
parser knows of the `--`; and a command of one token is split into words once more.

`tokens_after_separator_iff` says for which arguments the tokens after the first `--` are the
command's own.  Up to the `--` the parser depends on nothing behind it (`parseFrom_before`); behind
it the condition speaks of the shapes of the tokens (`plain`). -/

namespace Unitpm.Start

open Manifest (tokenizeFrom pushToken)

/-! ### What is asked -/

/-- The tokens of a command: the command and its arguments, or the entry file. -/
def execTokens (e : AppExec) : List String := e.command.toList ++ e.args.getD [] ++ e.entry.toList

/-- The tokens `post` behind the `--` are the command's own: the command ends with them as they
stand, and everything else is as if the one word `x` stood in their place. -/
def Verbatim (workDir : Except String String) (pre post : List String) : Prop :=
  post ≠ [] → ∃ top spec scale words,
    invocation workDir (pre ++ "--" :: post) = .start top spec scale ∧
    execTokens spec.exec = words ++ post ∧
    ∃ exec, invocation workDir (pre ++ ["--", "x"]) = .start top { spec with exec := exec } scale ∧
      execTokens exec = words ++ ["x"] ∧ exec.shell = spec.exec.shell

/-! ### The tokens before the separator -/

/-- How far the tokens before a `--` bring the parser, and whether the `--` is taken as a value;
`none` is a usage error. -/
def before (p : SpecParser) (moved : Bool) : List String → Option (SpecParser × Bool)
  | [] => some (p, moved)
  | arg :: rest =>
      if moved then before p false rest
      else match parseStep p arg (some (rest.headD "--")) with
        | .fail _ => none
        | .go p moved => before p moved rest

/-- Up to a `--` the parser depends on nothing behind it. -/
theorem parseFrom_before {args : List String} (hsep : "--" ∉ args) (p : SpecParser)
    (moved : Bool) :
    (before p moved args = none ∧
      ∃ e, ∀ post, parseFrom p moved (args ++ "--" :: post) = .error e) ∨
      ∃ q m, before p moved args = some (q, m) ∧
        ∀ post, parseFrom p moved (args ++ "--" :: post) = parseFrom q m ("--" :: post) := by
  induction args generalizing p moved with
  | nil => exact Or.inr ⟨p, moved, rfl, fun _ => rfl⟩
  | cons arg rest ih =>
      obtain ⟨hne, hrest⟩ := not_or.mp (mt List.mem_cons.mpr hsep)
      cases moved with
      | true => exact ih hrest p false
      | false =>
          have hhead : ∀ post, (rest ++ "--" :: post).head? = some (rest.headD "--") := by
            intro post
            cases rest <;> rfl
          simp only [List.cons_append, parseFrom_cons (Ne.symm hne), hhead, before]
          cases parseStep p arg (some (rest.headD "--")) with
          | fail e => exact Or.inl ⟨rfl, e, fun _ => rfl⟩
          | go q m => exact ih hrest q m

/-! ### The tokens of a command -/

/-- The tokens go to the command although the parser is still looking for flags: no `--`, no flag it
knows, except one at the end that lacks its value, and nothing that looks like a flag before the
first command token. -/
def plain (words : Bool) : List String → Bool
  | [] => true
  | arg :: rest =>
      match shape arg with
      | .separator | .switch => false
      | .word => plain true rest
      | .unknown => words && plain true rest
      | .option _ => words && rest.isEmpty

/-- The command tokens are some of the arguments, in their order. -/
theorem sublist_of_parseFrom {args : List String} {p q : SpecParser} {moved : Bool}
    (h : parseFrom p moved args = .ok q) :
    ∃ l, l.Sublist (if moved then args.tail else args) ∧ q.cmdParts = p.cmdParts ++ l := by
  induction args generalizing p moved with
  | nil =>
      obtain rfl := Except.ok.inj h
      exact ⟨[], List.nil_sublist _, (List.append_nil _).symm⟩
  | cons arg rest ih =>
      cases moved with
      | true => exact ih h
      | false =>
          by_cases hsep : arg = "--"
          · rw [parseFrom, if_neg (by decide), if_pos hsep] at h
            obtain rfl := Except.ok.inj h
            exact ⟨rest, List.sublist_cons_self arg rest, rfl⟩
          · have htail : ∀ m : Bool, (if m then rest.tail else rest).Sublist rest := by
              intro m
              cases m with
              | true => exact List.tail_sublist rest
              | false => exact List.Sublist.refl rest
            have hkeep : ∀ o m, parseStep p arg rest.head? = .go { p with options := o } m →
                ∃ l, l.Sublist (arg :: rest) ∧ q.cmdParts = p.cmdParts ++ l := by
              intro o m hp
              rw [parseFrom_cons hsep, hp] at h
              obtain ⟨l, hl, hq⟩ := ih h
              exact ⟨l, (hl.trans (htail m)).cons arg, hq⟩
            have hpush : ∀ m, parseStep p arg rest.head? = .go (p.push arg) m →
                ∃ l, l.Sublist (arg :: rest) ∧ q.cmdParts = p.cmdParts ++ l := by
              intro m hp
              rw [parseFrom_cons hsep, hp] at h
              obtain ⟨l, hl, hq⟩ := ih h
              refine ⟨arg :: l, (hl.trans (htail m)).cons_cons arg, ?_⟩
              rw [hq]
              simp [SpecParser.push]
            have hrec : ∀ m e, parseStep p arg rest.head? = recover p arg m e →
                ∃ l, l.Sublist (arg :: rest) ∧ q.cmdParts = p.cmdParts ++ l := by
              intro m e hp
              rcases recover_cases p arg m e with ⟨-, hr⟩ | ⟨-, hr⟩
              · exact hpush m (hp.trans hr)
              · rw [parseFrom_cons hsep, hp, hr] at h
                cases h
            rcases parseStep_cases p hsep rest.head? with
              ⟨-, hp⟩ | ⟨-, o, hp⟩ | ⟨-, e, hp⟩ | ⟨accepts, -, ⟨v, o, -, -, hp⟩ | ⟨-, e, hp⟩⟩
            · exact hpush _ hp
            · exact hkeep o _ hp
            · exact hrec _ e hp
            · exact hkeep o _ hp
            · exact hrec _ e hp

theorem cmdParts_ne_of_length {args tokens : List String} {p q r : SpecParser} {moved : Bool}
    (h : parseFrom p moved args = .ok q) (hp : p.cmdParts = r.cmdParts)
    (hlen : (if moved then args.tail else args).length < tokens.length) :
    q.cmdParts ≠ r.cmdParts ++ tokens := by
  obtain ⟨l, hl, hq⟩ := sublist_of_parseFrom h
  intro heq
  rw [hq, hp] at heq
  obtain rfl := List.append_cancel_left heq
  exact absurd hl.length_le hlen.not_ge

/-- A parser that is still looking for flags takes plain tokens as they are. -/
theorem parseFrom_of_plain {args : List String} {p : SpecParser}
    (hplain : plain p.words args = true) :
    parseFrom p false args = .ok { p with cmdParts := p.cmdParts ++ args } := by
  induction args generalizing p with
  | nil => simp [parseFrom]
  | cons arg rest ih =>
      have hpush : plain true rest = true → parseFrom (p.push arg) false rest =
          .ok { p with cmdParts := p.cmdParts ++ arg :: rest } := by
        intro hrest
        rw [ih (by rw [words_push, hrest])]
        simp [SpecParser.push]
      by_cases hsep : arg = "--"
      · have hs : shape arg = .separator := by rw [shape, if_pos hsep]
        simp [plain, hs] at hplain
      · rw [parseFrom_cons hsep]
        rcases parseStep_cases p hsep rest.head? with
          ⟨hs, hp⟩ | ⟨hs, o, hp⟩ | ⟨hs, e, hp⟩ | ⟨accepts, hs, ⟨v, o, hv, ha, hp⟩ | ⟨ha, e, hp⟩⟩
        · simp only [plain, hs] at hplain
          rw [hp]
          exact hpush hplain
        · simp [plain, hs] at hplain
        · simp only [plain, hs, Bool.and_eq_true] at hplain
          rcases recover_cases p arg false e with ⟨-, hr⟩ | ⟨hw, -⟩
          · rw [hp, hr]
            exact hpush hplain.2
          · exact absurd (hplain.1.symm.trans hw) (by decide)
        · simp only [plain, hs, Bool.and_eq_true, List.isEmpty_iff] at hplain
          rw [hplain.2] at hv
          cases hv
        · simp only [plain, hs, Bool.and_eq_true, List.isEmpty_iff] at hplain
          rcases recover_cases p arg true e with ⟨-, hr⟩ | ⟨hw, -⟩
          · rw [hp, hr, hplain.2]
            rfl
          · exact absurd (hplain.1.symm.trans hw) (by decide)

/-- All tokens become command tokens only if they are plain. -/
theorem plain_of_parseFrom {args : List String} {p q : SpecParser}
    (h : parseFrom p false args = .ok q) (hq : q.cmdParts = p.cmdParts ++ args) :
    plain p.words args = true := by
  induction args generalizing p with
  | nil => rfl
  | cons arg rest ih =>
      have hpush : parseFrom (p.push arg) false rest = .ok q → plain true rest = true := by
        intro h
        have hih := ih h (by rw [hq]; simp [SpecParser.push])
        rwa [words_push] at hih
      by_cases hsep : arg = "--"
      · rw [parseFrom, if_neg (by decide), if_pos hsep] at h
        obtain rfl := Except.ok.inj h
        simp at hq
      · rw [parseFrom_cons hsep] at h
        rcases parseStep_cases p hsep rest.head? with
          ⟨hs, hp⟩ | ⟨hs, o, hp⟩ | ⟨hs, e, hp⟩ | ⟨accepts, hs, ⟨v, o, hv, ha, hp⟩ | ⟨ha, e, hp⟩⟩
        · rw [hp] at h
          rw [plain, hs]
          exact hpush h
        · rw [hp] at h
          exact absurd hq (cmdParts_ne_of_length h rfl (by simp))
        · rw [hp] at h
          rcases recover_cases p arg false e with ⟨hw, hr⟩ | ⟨-, hr⟩
          · rw [hr] at h
            rw [plain, hs, hw]
            exact hpush h
          · rw [hr] at h
            cases h
        · rw [hp] at h
          refine absurd hq (cmdParts_ne_of_length h rfl ?_)
          simp only [if_true, List.length_tail, List.length_cons]
          omega
        · rw [hp] at h
          rcases recover_cases p arg true e with ⟨hw, hr⟩ | ⟨-, hr⟩
          · rw [hr] at h
            rw [plain, hs, hw]
            cases rest with
            | nil => rfl
            | cons t rest =>
                have hlt : (t :: rest).tail.length < (t :: rest).length := Nat.lt_succ_self _
                have hq' : q.cmdParts = (p.push arg).cmdParts ++ t :: rest := by
                  rw [hq]
                  simp [SpecParser.push]
                exact absurd hq' (cmdParts_ne_of_length h rfl hlt)
          · rw [hr] at h
            cases h

/-! ### A command of one token -/

/-- The command is a single token with several words in it, and so they become the command. -/
def SplitApart (runtime : String) (cmdParts : List String) : Prop :=
  runtime = "" ∧ ∃ token first second rest, cmdParts = [token] ∧
    tokenize token = .ok (first :: second :: rest)

/-- How many characters some tokens have. -/
def totalLength (tokens : List String) : ℕ := (tokens.map String.length).sum

theorem totalLength_pushToken (args : List String) (cur : List Char) :
    totalLength (pushToken args cur) = totalLength args + cur.length := by
  unfold pushToken totalLength
  split_ifs with hcur
  · rw [hcur, List.length_nil, Nat.add_zero]
  · simp

theorem not_mem_pushToken {args : List String} (hargs : "" ∉ args) (cur : List Char) :
    "" ∉ pushToken args cur := by
  unfold pushToken
  cases cur with
  | nil => simpa using hargs
  | cons c cur =>
      rw [if_neg (List.cons_ne_nil c cur), List.mem_append, not_or]
      refine ⟨hargs, fun hmem => ?_⟩
      have hlen := congrArg String.toList (List.mem_singleton.mp hmem)
      simp at hlen

/-- The tokenizer adds no characters, and none of its tokens is empty. -/
theorem totalLength_of_tokenizeFrom {state : Manifest.TokenState} {args parts : List String}
    {cur l : List Char} (h : tokenizeFrom state args cur l = .ok parts) (hargs : "" ∉ args) :
    totalLength parts ≤ totalLength args + cur.length + l.length ∧ "" ∉ parts := by
  fun_induction tokenizeFrom state args cur l
  case case1 =>
      obtain rfl := Except.ok.inj h
      exact ⟨(totalLength_pushToken _ _).le, not_mem_pushToken hargs _⟩
  case case4 ih =>
      have hih := ih h (not_mem_pushToken hargs _)
      rw [totalLength_pushToken] at hih
      simp only [List.length_nil, List.length_cons] at hih ⊢
      exact ⟨by omega, hih.2⟩
  case case2 | case3 | case11 | case13 => cases h
  -- a quote is left out
  case case5 ih | case6 ih | case8 ih | case10 ih =>
      have hih := ih h hargs
      simp only [List.length_cons]
      exact ⟨by omega, hih.2⟩
  -- a character goes on in the token
  case case7 ih | case9 ih | case12 ih | case14 ih =>
      have hih := ih h hargs
      simp only [List.length_append, List.length_cons, List.length_nil] at hih ⊢
      exact ⟨by omega, hih.2⟩

/-- A token is none of the several tokens in it. -/
theorem not_mem_of_tokenize {token first second : String} {rest : List String}
    (h : tokenize token = .ok (first :: second :: rest)) : token ∉ first :: second :: rest := by
  have hm : Manifest.tokenize token = .ok (first :: second :: rest) := by
    rw [tokenize_eq] at h
    cases hm : Manifest.tokenize token with
    | error e =>
        rw [hm] at h
        cases h
    | ok parts =>
        rw [hm] at h
        obtain rfl := Except.ok.inj h
        rfl
  obtain ⟨hlen, hne⟩ := totalLength_of_tokenizeFrom hm List.not_mem_nil
  have hpos : ∀ t ∈ first :: second :: rest, 0 < t.length := by
    intro t ht
    apply Nat.pos_of_ne_zero
    intro h0
    exact hne (String.length_eq_zero_iff.mp h0 ▸ ht)
  have hfirst := hpos first List.mem_cons_self
  have hsecond := hpos second (List.mem_cons_of_mem _ List.mem_cons_self)
  have htotal : first.length + totalLength (second :: rest) ≤ token.length := by
    simpa [totalLength, String.length_toList] using hlen
  intro hmem
  rcases List.mem_cons.mp hmem with rfl | hmem
  · have hle : second.length ≤ totalLength (second :: rest) := Nat.le_add_right _ _
    omega
  · have hle : token.length ≤ totalLength (second :: rest) :=
      List.le_sum_of_mem (List.mem_map_of_mem hmem)
    omega

theorem execTokens_inferExec (shell : Bool) (token : String) :
    execTokens (inferExec shell token) = [token] := by
  unfold inferExec
  split_ifs <;> rfl

theorem execTokens_resolveExec {cmdParts : List String} {runtime : String} (shell : Bool)
    (h : ¬ SplitApart runtime cmdParts) :
    execTokens (resolveExec cmdParts runtime shell) = cmdParts := by
  unfold resolveExec
  split
  · rfl
  · rename_i token
    split_ifs with hruntime
    · rfl
    · split
      · rename_i first second rest htok
        exact absurd ⟨not_not.mp hruntime, token, first, second, rest, rfl, htok⟩ h
      · exact execTokens_inferExec shell token
  · simp [commandExec, execTokens]

theorem execTokens_of_splitApart {cmdParts : List String} {runtime : String} (shell : Bool)
    (h : SplitApart runtime cmdParts) :
    ∃ token ∈ cmdParts, token ∉ execTokens (resolveExec cmdParts runtime shell) := by
  obtain ⟨rfl, token, first, second, rest, rfl, htok⟩ := h
  refine ⟨token, List.mem_singleton_self token, ?_⟩
  have hexec : execTokens (resolveExec [token] "" shell) = first :: second :: rest := by
    unfold resolveExec
    simp [htok, commandExec, execTokens]
  rw [hexec]
  exact not_mem_of_tokenize htok

theorem eq_of_execTokens {cmdParts l args : List String} {runtime : String} {shell : Bool}
    (hl : l.Sublist args)
    (h : execTokens (resolveExec (cmdParts ++ l) runtime shell) = cmdParts ++ args) :
    ¬ SplitApart runtime (cmdParts ++ l) ∧ l = args := by
  have hwhole : ¬ SplitApart runtime (cmdParts ++ l) := by
    intro hsplit
    obtain ⟨token, hmem, hnot⟩ := execTokens_of_splitApart shell hsplit
    rw [h] at hnot
    exact hnot (List.mem_append.mpr ((List.mem_append.mp hmem).imp_right (hl.subset ·)))
  rw [execTokens_resolveExec shell hwhole] at h
  exact ⟨hwhole, List.append_cancel_left h⟩

theorem finalizeSpec_exec {workDir : Except String String} {p : SpecParser} {spec : AppSpec}
    (h : p.finalizeSpec workDir = .ok spec) :
    spec.exec = resolveExec p.cmdParts p.options.runtime p.options.shell := by
  obtain ⟨-, cwd, watch, resources, -, -, -, hspec⟩ := finalizeSpec_ok_iff.mp h
  rw [hspec]
  rfl

/-! ### The flags of the command as a whole -/

theorem filterTopFlags_append (pre post : List String) :
    (filterTopFlags (pre ++ "--" :: post)).2 =
      (filterTopFlags pre).2 ++ "--" :: (filterTopFlags post).2 := by
  simp [filterTopFlags, isTopFlag]

theorem filterTopFlags_of_none (pre : List String) {post : List String}
    (h : ∀ a ∈ post, isTopFlag a = false) :
    (filterTopFlags (pre ++ "--" :: post)).1 = (filterTopFlags (pre ++ ["--"])).1 ∧
      (filterTopFlags post).2 = post := by
  have hne : ∀ a ∈ post, a ≠ "--dry-run" ∧ a ≠ "-n" ∧ a ≠ "--json" ∧ a ≠ "--no-list" := by
    intro a ha
    have hf := h a ha
    simp only [isTopFlag, Bool.or_eq_false_iff, beq_eq_false_iff_ne] at hf
    exact ⟨hf.1.1.1, hf.1.1.2, hf.1.2, hf.2⟩
  refine ⟨?_, List.filter_eq_self.mpr fun a ha => by rw [h a ha]; rfl⟩
  have hdry : (post.any fun a => a == "--dry-run" || a == "-n") = false := by
    apply List.any_eq_false.mpr
    intro a ha
    simp [(hne a ha).1, (hne a ha).2.1]
  have hjson : "--json" ∉ post := fun ha => (hne _ ha).2.2.1 rfl
  have hlist : "--no-list" ∉ post := fun ha => (hne _ ha).2.2.2 rfl
  simp [filterTopFlags, hdry, hjson, hlist]

theorem forall_isTopFlag_of_length {post : List String}
    (h : post.length ≤ (filterTopFlags post).2.length) : ∀ a ∈ post, isTopFlag a = false := by
  intro a ha
  have hall := List.length_filter_eq_length_iff.mp (le_antisymm (List.length_filter_le _ post) h)
  simpa using hall a ha

theorem argsContainHelp_append (pre post : List String) :
    argsContainHelp (pre ++ "--" :: post) = (argsContainHelp pre || argsContainHelp post) := by
  simp [argsContainHelp]

/-! ### The separator -/

theorem parseFrom_separator (p : SpecParser) (moved : Bool) (post : List String) :
    parseFrom p moved ("--" :: post) =
      if moved then parseFrom p false post else .ok { p with cmdParts := p.cmdParts ++ post } := by
  cases moved <;> rfl

theorem parseFrom_separator_of_plain {p : SpecParser} {moved : Bool} {post : List String}
    (hplain : moved = true → plain p.words post = true) :
    parseFrom p moved ("--" :: post) = .ok { p with cmdParts := p.cmdParts ++ post } := by
  rw [parseFrom_separator]
  cases moved with
  | true => exact parseFrom_of_plain (hplain rfl)
  | false => rfl

theorem sublist_of_parseFrom_separator {p q : SpecParser} {moved : Bool} {post : List String}
    (h : parseFrom q moved ("--" :: post) = .ok p) :
    ∃ l, l.Sublist post ∧ p.cmdParts = q.cmdParts ++ l := by
  cases moved with
  | true => exact sublist_of_parseFrom h
  | false =>
      rw [parseFrom_separator, if_neg Bool.false_ne_true] at h
      obtain rfl := Except.ok.inj h
      exact ⟨post, List.Sublist.refl post, rfl⟩

theorem plain_x (words : Bool) : plain words ["x"] = true := by
  have hs : shape "x" = .word := by rw [shape, if_neg (by decide), if_neg (by decide)]
  rw [plain, hs, plain]

theorem invocation_eq_start_iff {workDir : Except String String} {args : List String}
    {top : TopFlags} {spec : AppSpec} {scale : ℤ} :
    invocation workDir args = .start top spec scale ↔
      argsContainHelp args = false ∧ (filterTopFlags args).1 = top ∧
        ∃ p, parseFrom {} false (filterTopFlags args).2 = .ok p ∧
          p.finalizeSpec workDir = .ok spec ∧ p.options.scale = scale := by
  unfold invocation parseAppSpec
  cases argsContainHelp args with
  | true => simp
  | false =>
      cases hp : parseFrom {} false (filterTopFlags args).2 with
      | error e => simp [hp]
      | ok p => cases hs : p.finalizeSpec workDir <;> simp [hp, hs, Except.map]

/-- The options make the sections of a spec. -/
def Options.Accepted (workDir : Except String String) (o : Options) : Prop :=
  ∃ cwd watch resources, finalizeCwd workDir o = .ok cwd ∧ finalizeWatch o = .ok watch ∧
    finalizeResources o = .ok resources

/-- The first `--` is not read past, and the command stays as it is: there is no help token, the
tokens before the `--` are read without error and make a spec, none after it is a flag of the
command as a whole, they are plain if the `--` itself is taken as the value of a flag, and they do
not make up a single token that is split apart. -/
def SeparatorKept (workDir : Except String String) (pre post : List String) : Prop :=
  post ≠ [] → argsContainHelp pre = false ∧ argsContainHelp post = false ∧
    (∀ a ∈ post, isTopFlag a = false) ∧
    ∃ q moved, before {} false (filterTopFlags pre).2 = some (q, moved) ∧
      q.options.Accepted workDir ∧ (moved = true → plain q.words post = true) ∧
      ¬ SplitApart q.options.runtime (q.cmdParts ++ post)

section Separator

variable {workDir : Except String String} {pre post : List String} {top : TopFlags} {scale : ℤ}
  {spec : AppSpec}

/-- A command line that starts something is read as far as the `--` and from there to its end. -/
theorem exists_before (hsep : "--" ∉ pre)
    (h : invocation workDir (pre ++ "--" :: post) = .start top spec scale) :
    argsContainHelp pre = false ∧ argsContainHelp post = false ∧
      ∃ q moved, before {} false (filterTopFlags pre).2 = some (q, moved) ∧
        ∃ p, parseFrom q moved ("--" :: (filterTopFlags post).2) = .ok p ∧
          p.finalizeSpec workDir = .ok spec := by
  obtain ⟨hhelp, -, p, hp, hspec, -⟩ := invocation_eq_start_iff.mp h
  rw [argsContainHelp_append, Bool.or_eq_false_iff] at hhelp
  refine ⟨hhelp.1, hhelp.2, ?_⟩
  have hmem : "--" ∉ (filterTopFlags pre).2 := fun hm => hsep (List.mem_of_mem_filter hm)
  rw [filterTopFlags_append] at hp
  rcases parseFrom_before hmem {} false with ⟨-, e, he⟩ | ⟨q, moved, hq, he⟩
  · rw [he] at hp
    cases hp
  · rw [he] at hp
    exact ⟨q, moved, hq, p, hp, hspec⟩

/-- The tokens after a separator that is not read past are added to the command. -/
theorem invocation_of_before (hsep : "--" ∉ pre) (hpre : argsContainHelp pre = false)
    (hpost : argsContainHelp post = false) (htop : ∀ a ∈ post, isTopFlag a = false)
    {q : SpecParser} {moved : Bool}
    (hq : before {} false (filterTopFlags pre).2 = some (q, moved))
    (hplain : moved = true → plain q.words post = true)
    (hspec : SpecParser.finalizeSpec workDir { q with cmdParts := q.cmdParts ++ post } = .ok spec) :
    invocation workDir (pre ++ "--" :: post) =
      .start (filterTopFlags (pre ++ ["--"])).1 spec q.options.scale := by
  obtain ⟨hflags, hfilter⟩ := filterTopFlags_of_none pre htop
  refine invocation_eq_start_iff.mpr ⟨?_, hflags, _, ?_, hspec, rfl⟩
  · rw [argsContainHelp_append, hpre, hpost]
    rfl
  · have hmem : "--" ∉ (filterTopFlags pre).2 := fun hm => hsep (List.mem_of_mem_filter hm)
    rcases parseFrom_before hmem {} false with ⟨hnone, -⟩ | ⟨q', moved', hq', he⟩
    · cases hq.symm.trans hnone
    · obtain ⟨rfl, rfl⟩ := Prod.mk.inj (Option.some.inj (hq.symm.trans hq'))
      rw [filterTopFlags_append, hfilter, he]
      exact parseFrom_separator_of_plain hplain

theorem not_splitApart_x (runtime : String) (cmdParts : List String) :
    ¬ SplitApart runtime (cmdParts ++ ["x"]) := by
  rintro ⟨-, token, first, second, rest, hparts, htok⟩
  have hx : tokenize "x" = .ok ["x"] := by decide +kernel
  obtain ⟨rfl, rfl⟩ : cmdParts = [] ∧ token = "x" := by
    cases cmdParts with
    | nil => simpa using hparts.symm
    | cons c cs => simp at hparts
  cases hx.symm.trans htok

/-- With the word `x` after the `--` the command is the words before it and `x`. -/
theorem before_of_x (hsep : "--" ∉ pre) {q : SpecParser} {moved : Bool}
    (hq : before {} false (filterTopFlags pre).2 = some (q, moved))
    (h : invocation workDir (pre ++ ["--", "x"]) = .start top spec scale) :
    q.options.Accepted workDir ∧ execTokens spec.exec = q.cmdParts ++ ["x"] := by
  obtain ⟨-, -, q', moved', hq', p, hp, hspec⟩ := exists_before hsep h
  obtain ⟨rfl, rfl⟩ := Prod.mk.inj (Option.some.inj (hq.symm.trans hq'))
  have hfilter : (filterTopFlags ["x"]).2 = ["x"] := by decide
  rw [hfilter, parseFrom_separator_of_plain fun _ => plain_x q.words] at hp
  obtain rfl := Except.ok.inj hp
  rw [finalizeSpec_exec hspec]
  obtain ⟨-, cwd, watch, resources, hcwd, hwatch, hresources, -⟩ := finalizeSpec_ok_iff.mp hspec
  exact ⟨⟨cwd, watch, resources, hcwd, hwatch, hresources⟩,
    execTokens_resolveExec _ (not_splitApart_x _ _)⟩

theorem Verbatim.separatorKept (hsep : "--" ∉ pre) (h : Verbatim workDir pre post) :
    SeparatorKept workDir pre post := by
  intro hne
  obtain ⟨top, spec, scale, words, hinv, htokens, exec, hx, hxtokens, -⟩ := h hne
  obtain ⟨hpre, hpost, q, moved, hq, p, hp, hspec⟩ := exists_before hsep hinv
  obtain ⟨haccepted, hxwords⟩ := before_of_x hsep hq hx
  obtain rfl : words = q.cmdParts := List.append_cancel_right (hxtokens.symm.trans hxwords)
  -- the command tokens of the parse are among the arguments, so they are all there
  obtain ⟨l, hl, hcmd⟩ := sublist_of_parseFrom_separator hp
  rw [finalizeSpec_exec hspec, hcmd] at htokens
  obtain ⟨hwhole, rfl⟩ := eq_of_execTokens (hl.trans List.filter_sublist) htokens
  have htop := forall_isTopFlag_of_length hl.length_le
  rw [(filterTopFlags_of_none pre htop).2] at hp
  have hplain : moved = true → plain q.words l = true := by
    rintro rfl
    exact plain_of_parseFrom hp hcmd
  rw [parseFrom_separator_of_plain hplain] at hp
  obtain rfl := Except.ok.inj hp
  exact ⟨hpre, hpost, htop, q, moved, hq, haccepted, hplain, hwhole⟩

theorem SeparatorKept.verbatim (hsep : "--" ∉ pre) (h : SeparatorKept workDir pre post) :
    Verbatim workDir pre post := by
  intro hne
  obtain ⟨hpre, hpost, htop, q, moved, hq, ⟨cwd, watch, resources, hcwd, hwatch, hresources⟩,
    hplain, hwhole⟩ := h hne
  let spec (cmdParts : List String) : AppSpec := q.options.spec cwd watch resources
    (resolveExec cmdParts q.options.runtime q.options.shell)
  have hspec : ∀ l ≠ [], SpecParser.finalizeSpec workDir { q with cmdParts := q.cmdParts ++ l } =
      .ok (spec (q.cmdParts ++ l)) := by
    intro l hl
    refine finalizeSpec_ok_iff.mpr ⟨?_, cwd, watch, resources, hcwd, hwatch, hresources, rfl⟩
    exact List.append_ne_nil_of_right_ne_nil _ hl
  have hx : ∀ a ∈ ["x"], isTopFlag a = false := by decide
  refine ⟨_, spec (q.cmdParts ++ post), q.options.scale, q.cmdParts,
    invocation_of_before hsep hpre hpost htop hq hplain (hspec post hne),
    execTokens_resolveExec _ hwhole, (spec (q.cmdParts ++ ["x"])).exec, ?_, ?_, ?_⟩
  · exact invocation_of_before hsep hpre (by decide) hx hq (fun _ => plain_x q.words)
      (hspec ["x"] (by simp))
  · exact execTokens_resolveExec _ (not_splitApart_x _ _)
  · exact (resolveExec_shell _ _).trans (resolveExec_shell _ _).symm

/-- **The separator.**  The tokens after the first `--` are the command's, as they stand, and none
of them is read as a flag or as a request for help, exactly if the separator is kept. -/
theorem tokens_after_separator_iff (workDir : Except String String) (pre post : List String)
    (hsep : "--" ∉ pre) :
    Verbatim workDir pre post ↔ SeparatorKept workDir pre post :=
  ⟨fun h => h.separatorKept hsep, fun h => h.verbatim hsep⟩

theorem tokens_after_separator_node :
    Verbatim (.ok "/srv") ["--name", "web"] ["node", "--scale", "4"] := by
  refine (tokens_after_separator_iff _ _ _ (by decide)).mpr fun _ => ?_
  refine ⟨by decide, by decide, by decide, { options := { name := "web" } }, false, ?_,
    ⟨"/srv", none, none, ?_⟩, nofun, ?_⟩
  · decide +kernel
  · decide +kernel
  · rintro ⟨-, token, first, second, rest, hparts, -⟩
    cases hparts

/-- The tokens of the command that is started, if one is. -/
def Invocation.tokens : Invocation → List String
  | .start _ spec _ => execTokens spec.exec
  | _ => []

theorem Verbatim.suffix (h : Verbatim workDir pre post) :
    post <:+ (invocation workDir (pre ++ "--" :: post)).tokens := by
  by_cases hne : post = []
  · exact hne ▸ List.nil_suffix
  · obtain ⟨top, spec, scale, words, hinv, htokens, -⟩ := h hne
    exact ⟨words, by rw [hinv, Invocation.tokens, htokens]⟩

/-- A request for help or a flag of the command as a whole is taken from the user's command, and a
token with a blank in it is split. -/
theorem tokens_after_separator_taken :
    (invocation (.ok "/srv") ["--", "node", "--help"]).tokens = [] ∧
      (invocation (.ok "/srv") ["--", "node", "--json"]).tokens = ["node"] ∧
      (invocation (.ok "/srv") ["--", "my prog"]).tokens = ["my", "prog"] ∧
      ¬ Verbatim (.ok "/srv") [] ["node", "--help"] ∧
      ¬ Verbatim (.ok "/srv") [] ["node", "--json"] ∧ ¬ Verbatim (.ok "/srv") [] ["my prog"] := by
  have hhelp : (invocation (.ok "/srv") ["--", "node", "--help"]).tokens = [] := by decide +kernel
  have hjson : (invocation (.ok "/srv") ["--", "node", "--json"]).tokens = ["node"] := by
    decide +kernel
  have hprog : (invocation (.ok "/srv") ["--", "my prog"]).tokens = ["my", "prog"] := by
    decide +kernel
  refine ⟨hhelp, hjson, hprog, fun h => ?_, fun h => ?_, fun h => ?_⟩
  · exact absurd (hhelp ▸ h.suffix) (by decide)
  · exact absurd (hjson ▸ h.suffix) (by decide)
  · exact absurd (hprog ▸ h.suffix) (by decide)

end Separator

end Unitpm.Start
