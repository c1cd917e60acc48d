import Unitpm.Manifest

/-! # The tokenizer of the command line

`internal/cli/commands/start/lexer.rs`: a loop over the characters of a string with an explicit
position, one body for each of three states.

`lex_eq`: from every state of the loop it does what the tokenizer of manifests does on the
characters that are left, so a command means the same in a `unitpm.yml` and on the command line
(`tokenize_agree`).  Tokens that are quoted are read back if none is empty (`quoteTokens_iff`). -/

namespace Unitpm.Start

open Rust.Str
open Manifest (TokenState TokenizeError tokenizeFrom pushToken)

/-- Errors of `tokenize`. -/
inductive CmdLineError where
  | unclosedQuote
  | invalidEscape (s : String)
deriving DecidableEq

inductive State where
  | normal
  | single
  | double
deriving DecidableEq

/-- The variables of the loop of `tokenize`. -/
structure Lexer where
  out : List String := []
  cur : List Char := []
  state : State := .normal
  pos : ℕ := 0

namespace Lexer

/-- `cur.push(c)`. -/
def push (s : Lexer) (c : Char) : Lexer := { s with cur := s.cur ++ [c] }

/-- `out.push(cur.clone()); cur.clear()`, unless `cur` is empty. -/
def flush (s : Lexer) : Lexer :=
  if s.cur ≠ [] then { s with out := s.out ++ [String.ofList s.cur], cur := [] } else s

/-- The branch of a backslash between double quotes. -/
def escape (chars : List Char) (s : Lexer) : Except CmdLineError Lexer :=
  match chars[s.pos + 1]? with
  | none => .error (.invalidEscape "trailing backslash")
  | some next =>
      if next = '"' ∨ next = '\\' then .ok { s.push next with pos := s.pos + 1 }
      else .error (.invalidEscape (String.ofList ['\\', next]))

/-- The body of the loop up to the increment of `pos`. -/
def body (chars : List Char) (s : Lexer) (c : Char) : Except CmdLineError Lexer :=
  match s.state with
  | .normal =>
      if isWhitespace c then .ok s.flush
      else if c = '\'' then .ok { s with state := .single }
      else if c = '"' then .ok { s with state := .double }
      else .ok (s.push c)
  | .single => if c = '\'' then .ok { s with state := .normal } else .ok (s.push c)
  | .double =>
      if c = '"' then .ok { s with state := .normal }
      else if c = '\\' then s.escape chars
      else .ok (s.push c)

@[simp] theorem flush_pos (s : Lexer) : s.flush.pos = s.pos := by
  unfold flush
  split <;> rfl

theorem pos_le_of_body {chars : List Char} {s s' : Lexer} {c : Char}
    (h : s.body chars c = .ok s') : s.pos ≤ s'.pos := by
  unfold body at h
  split at h
  · split_ifs at h <;> obtain rfl := Except.ok.inj h <;> simp [push]
  · split_ifs at h <;> obtain rfl := Except.ok.inj h <;> simp [push]
  · split_ifs at h
    · obtain rfl := Except.ok.inj h
      exact le_refl _
    · unfold escape at h
      split at h
      · cases h
      · split_ifs at h
        obtain rfl := Except.ok.inj h
        exact Nat.le_succ _
    · obtain rfl := Except.ok.inj h
      exact le_refl _

/-- What is returned behind the last character. -/
def finish (s : Lexer) : Except CmdLineError (List String) :=
  if s.state ≠ .normal then .error .unclosedQuote
  else .ok (if s.cur ≠ [] then s.out ++ [String.ofList s.cur] else s.out)

end Lexer

/-- The loop of `tokenize`. -/
def lex (chars : List Char) (s : Lexer) : Except CmdLineError (List String) :=
  match _ : chars[s.pos]? with
  | none => s.finish
  | some c =>
      match _ : s.body chars c with
      | .error e => .error e
      | .ok s' => lex chars { s' with pos := s'.pos + 1 }
termination_by chars.length - s.pos
decreasing_by
  have hpos := Lexer.pos_le_of_body ‹_›
  have hlt := (List.getElem?_eq_some_iff.mp ‹_›).1
  omega

/-- `tokenize`. -/
def tokenize (input : String) : Except CmdLineError (List String) := lex input.toList {}

/-! ### The two tokenizers -/

/-- The error that stands for an error of the other tokenizer. -/
def CmdLineError.ofTokenizeError : TokenizeError → CmdLineError
  | .unclosedQuote => .unclosedQuote
  | .trailingBackslash => .invalidEscape "trailing backslash"
  | .invalidEscape c => .invalidEscape (String.ofList ['\\', c])

/-- The state of the other tokenizer. -/
def State.toTokenState : State → TokenState
  | .normal => .normal
  | .single => .single
  | .double => .double

/-- The other tokenizer on what is left. -/
def Lexer.rest (chars : List Char) (s : Lexer) : Except CmdLineError (List String) :=
  (tokenizeFrom s.state.toTokenState s.out s.cur (chars.drop s.pos)).mapError .ofTokenizeError

namespace Lexer

variable {chars : List Char} {s : Lexer} {c : Char}

theorem drop_pos (hc : chars[s.pos]? = some c) :
    chars.drop s.pos = c :: chars.drop (s.pos + 1) := by
  obtain ⟨hlt, rfl⟩ := List.getElem?_eq_some_iff.mp hc
  exact List.drop_eq_getElem_cons hlt

theorem flush_eq (s : Lexer) : s.flush = { s with out := pushToken s.out s.cur, cur := [] } := by
  obtain ⟨out, cur, state, pos⟩ := s
  unfold flush pushToken
  cases cur <;> simp

theorem rest_of_escape {out : List String} {cur : List Char} {pos : ℕ} :
    (tokenizeFrom .double out cur ('\\' :: chars.drop (pos + 1))).mapError .ofTokenizeError =
      match escape chars { out := out, cur := cur, state := .double, pos := pos } with
      | .error e => .error e
      | .ok s' => rest chars { s' with pos := s'.pos + 1 } := by
  unfold escape
  cases hn : chars[pos + 1]? with
  | none =>
      have hdrop : chars.drop (pos + 1) = [] :=
        List.drop_eq_nil_iff.mpr (List.getElem?_eq_none_iff.mp hn)
      simp only [hdrop, tokenizeFrom]
      rfl
  | some next =>
      rw [drop_pos (s := { pos := pos + 1 }) hn, tokenizeFrom]
      simp only
      split_ifs with hq
      · rfl
      · rfl

theorem rest_of_end (hc : chars[s.pos]? = none) : s.rest chars = s.finish := by
  have hdrop : chars.drop s.pos = [] := List.drop_eq_nil_iff.mpr (List.getElem?_eq_none_iff.mp hc)
  unfold rest finish
  rw [hdrop]
  cases hs : s.state with
  | normal =>
      cases h : s.cur <;> simp [State.toTokenState, tokenizeFrom, pushToken, Except.mapError]
  | single => rfl
  | double => rfl

/-- **One turn of the loop** is one step of the other tokenizer. -/
theorem rest_of_body (hc : chars[s.pos]? = some c) :
    s.rest chars = match s.body chars c with
      | .error e => .error e
      | .ok s' => rest chars { s' with pos := s'.pos + 1 } := by
  unfold rest
  rw [drop_pos hc]
  obtain ⟨out, cur, state, pos⟩ := s
  cases state with
  | normal =>
      simp only [body, State.toTokenState, tokenizeFrom]
      split_ifs with hw h1 h2
      · rw [flush_eq]
      · rfl
      · rfl
      · rfl
  | single =>
      simp only [body, State.toTokenState, tokenizeFrom]
      split_ifs with h1
      · rfl
      · rfl
  | double =>
      simp only [body, State.toTokenState]
      split_ifs with h1 h2
      · rw [h1, tokenizeFrom]
      · rw [h2]
        exact rest_of_escape
      · rw [tokenizeFrom]
        · rfl
        · exact h1
        · exact fun e _ => h2 e
        · exact fun _ _ e _ => h2 e

end Lexer

theorem lex_of_end {chars : List Char} {s : Lexer} (hc : chars[s.pos]? = none) :
    lex chars s = s.finish := by
  rw [lex]
  split
  · rfl
  · rename_i c h
    cases hc.symm.trans h

theorem lex_of_body {chars : List Char} {s : Lexer} {c : Char} (hc : chars[s.pos]? = some c) :
    lex chars s = match s.body chars c with
      | .error e => .error e
      | .ok s' => lex chars { s' with pos := s'.pos + 1 } := by
  rw [lex]
  split
  · rename_i h
    cases hc.symm.trans h
  · rename_i c' h
    obtain rfl := Option.some.inj (h.symm.trans hc)
    split <;> rename_i hb <;> rw [hb]

/-- **The loop**, from any of its states, is the other tokenizer. -/
theorem lex_eq (chars : List Char) (s : Lexer) : lex chars s = s.rest chars := by
  induction s using lex.induct chars with
  | case1 s hc => rw [lex_of_end hc, Lexer.rest_of_end hc]
  | case2 s c hc e hb => rw [lex_of_body hc, Lexer.rest_of_body hc, hb]
  | case3 s c hc s' hb ih =>
      rw [lex_of_body hc, Lexer.rest_of_body hc, hb]
      exact ih

/-- The two results agree: the same tokens, or errors of one kind. -/
def Agree : Except TokenizeError (List String) → Except CmdLineError (List String) → Prop
  | .ok args, .ok out => args = out
  | .error .unclosedQuote, .error .unclosedQuote => True
  | .error .trailingBackslash, .error (.invalidEscape _) => True
  | .error (.invalidEscape _), .error (.invalidEscape _) => True
  | _, _ => False

/-- **The tokenizers agree** on every input. -/
theorem tokenize_agree (input : String) : Agree (Manifest.tokenize input) (tokenize input) := by
  have h : tokenize input = (Manifest.tokenize input).mapError .ofTokenizeError :=
    lex_eq input.toList {}
  rw [h]
  cases Manifest.tokenize input with
  | ok args => exact rfl
  | error e => cases e <;> trivial

/-! ### Quoted tokens -/

/-- A character between double quotes. -/
def escapeQuoted (c : Char) : List Char := if c = '"' ∨ c = '\\' then ['\\', c] else [c]

/-- A token in double quotes. -/
def quoteToken (tok : String) : List Char := '"' :: (tok.toList.flatMap escapeQuoted ++ ['"'])

/-- Quoted tokens, joined by blanks. -/
def quoteTokens (toks : List String) : String := String.ofList (joinWith ' ' (toks.map quoteToken))

theorem tokenizeFrom_escapeQuoted (args : List String) (cur t l : List Char) :
    tokenizeFrom .double args cur (t.flatMap escapeQuoted ++ l) =
      tokenizeFrom .double args (cur ++ t) l := by
  induction t generalizing cur with
  | nil => simp
  | cons c t ih =>
      have hcur : cur ++ c :: t = (cur ++ [c]) ++ t := by simp
      rw [List.flatMap_cons, List.append_assoc, hcur, ← ih (cur ++ [c])]
      unfold escapeQuoted
      by_cases hc : c = '"' ∨ c = '\\'
      · rw [if_pos hc, List.cons_append, List.cons_append, List.nil_append, tokenizeFrom, if_pos hc]
      · rw [if_neg hc, List.cons_append, List.nil_append]
        rw [not_or] at hc
        rw [tokenizeFrom]
        · exact hc.1
        · exact fun e _ => hc.2 e
        · exact fun _ _ e _ => hc.2 e

theorem tokenizeFrom_quoteToken (tok : String) (args : List String) (l : List Char) :
    tokenizeFrom .normal args [] (quoteToken tok ++ l) =
      tokenizeFrom .normal args tok.toList l := by
  rw [quoteToken, List.cons_append, tokenizeFrom, if_neg (by decide), if_neg (by decide),
    if_pos rfl, List.append_assoc, tokenizeFrom_escapeQuoted, List.nil_append, List.cons_append,
    List.nil_append, tokenizeFrom]

theorem tokenize_quoteTokens (toks : List String) :
    Manifest.tokenize (quoteTokens toks) = .ok (toks.filter fun tok => tok ≠ "") := by
  rw [Manifest.tokenize, quoteTokens, String.toList_ofList,
    Manifest.tokenizeFrom_joinWith_map [] fun tok _ => tokenizeFrom_quoteToken tok, List.nil_append]

/-- **Quoted tokens read back**, by either tokenizer, exactly where none of them is empty. -/
theorem quoteTokens_iff (toks : List String) :
    (Manifest.tokenize (quoteTokens toks) = .ok toks ↔ "" ∉ toks) ∧
      (tokenize (quoteTokens toks) = .ok toks ↔ "" ∉ toks) := by
  have hlex : tokenize (quoteTokens toks) = .ok (toks.filter fun tok => tok ≠ "") := by
    have h := tokenize_agree (quoteTokens toks)
    rw [tokenize_quoteTokens] at h
    unfold Agree at h
    split at h <;> simp_all
  have hself : toks.filter (fun tok => tok ≠ "") = toks ↔ "" ∉ toks := by
    rw [List.filter_eq_self]
    constructor
    · intro hne hmem
      exact absurd (hne "" hmem) (by decide)
    · intro hnot tok hmem
      have hne : tok ≠ "" := fun he => hnot (he ▸ hmem)
      simpa using hne
  rw [tokenize_quoteTokens, hlex, Except.ok.injEq, Except.ok.injEq]
  exact ⟨hself, hself⟩

/-- An empty argument is lost. -/
theorem quoteTokens_empty :
    Manifest.tokenize (quoteTokens ["echo", "", "x"]) = .ok ["echo", "x"] ∧
      tokenize (quoteTokens ["echo", "", "x"]) = .ok ["echo", "x"] ∧
      ¬ (Manifest.tokenize (quoteTokens ["echo", "", "x"]) = .ok ["echo", "", "x"]) ∧
      ¬ (tokenize (quoteTokens ["echo", "", "x"]) = .ok ["echo", "", "x"]) := by
  decide +kernel

end Unitpm.Start
