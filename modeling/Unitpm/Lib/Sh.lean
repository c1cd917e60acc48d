import Mathlib.Data.List.Basic
import Mathlib.Tactic.Common

/-! # Words of the POSIX shell

Token recognition and quoting of the shell command language, as far as a command line without
expansions needs them.  A word is the list of its characters, each with a mark that tells whether it
was quoted; the quotes themselves are gone from it, so the quoted null string is the empty word.

* `lex` reads characters one by one.  Blanks separate words; a newline and the operator characters
  are tokens of their own; `#` at the start of a word begins a comment.
* Single quotes quote every character up to the next single quote.  A backslash quotes the
  character after it, and a backslash and a newline together are nothing.  Double quotes quote
  everything but `$`, the backquote and the backslash.
* A `$` or backquote that is not quoted starts an expansion, whose extent is not scanned here: the
  line is refused, as is one that ends within quotes.

Whatever the remaining expansions do, they act on characters that are not quoted.  `Expansion` says
this of a word all of whose characters are, and `Expansion.fields_of_quoted` says that such words
are the fields of the command. -/

namespace Sh

/-- A character of a word and whether it was quoted. -/
structure QChar where
  char : Char
  quoted : Bool
deriving DecidableEq, Repr

abbrev Word := List QChar

/-- Quote removal: the quotes are gone from a word, and the marks go now. -/
def quoteRemoval (w : Word) : String := String.ofList (w.map QChar.char)

/-- The word of a text of which every character is quoted. -/
def quoted (cs : List Char) : Word := cs.map fun c => ⟨c, true⟩

@[simp] theorem quoted_nil : quoted [] = [] := rfl

theorem quoteRemoval_quoted (cs : List Char) : quoteRemoval (quoted cs) = String.ofList cs := by
  have h : (QChar.char ∘ fun c => ⟨c, true⟩) = id := rfl
  rw [quoteRemoval, quoted, List.map_map, h, List.map_id]

theorem quoted_of_mem {cs : List Char} {q : QChar} (h : q ∈ quoted cs) : q.quoted = true := by
  obtain ⟨c, -, rfl⟩ := List.mem_map.mp h
  rfl

/-! ### Token recognition -/

inductive Token where
  | word (w : Word)
  | operator (c : Char)
  | newline
deriving DecidableEq, Repr

/-- Where the lexer stands; `cur` is the word begun, if one is. -/
inductive State where
  | plain (cur : Option Word)
  | escape (cur : Option Word)
  | single (w : Word)
  | double (w : Word)
  | doubleEscape (w : Word)
  | comment

/-- A blank. -/
def isBlank (c : Char) : Bool := c = ' ' || c = '\t'

/-- The characters that operators are made of. -/
def isOperator (c : Char) : Bool := c ∈ "|&;<>()".toList

/-- The characters that start an expansion within double quotes too. -/
def isExpansion (c : Char) : Bool := c = '$' || c = '`'

/-- The word begun, with one more character. -/
def extend (cur : Option Word) (c : Char) (quoted : Bool) : Option Word :=
  some (cur.getD [] ++ [⟨c, quoted⟩])

/-- The tokens `ts` after the word begun, if one is. -/
def delimit : Option Word → List Token → List Token
  | none, ts => ts
  | some w, ts => .word w :: ts

/-- The tokens of the characters that are left. -/
def lex : State → List Char → Option (List Token)
  | .plain cur, [] => some (delimit cur [])
  | .comment, [] => some []
  | .escape _, [] => none
  | .single _, [] => none
  | .double _, [] => none
  | .doubleEscape _, [] => none
  | .plain cur, c :: cs =>
      if c = '\'' then lex (.single (cur.getD [])) cs
      else if c = '\"' then lex (.double (cur.getD [])) cs
      else if c = '\\' then lex (.escape cur) cs
      else if isBlank c then (lex (.plain none) cs).map (delimit cur)
      else if c = '\n' then (lex (.plain none) cs).map fun ts => delimit cur (.newline :: ts)
      else if isOperator c then
        (lex (.plain none) cs).map fun ts => delimit cur (.operator c :: ts)
      else if isExpansion c then none
      else if c = '#' ∧ cur = none then lex .comment cs
      else lex (.plain (extend cur c false)) cs
  | .escape cur, c :: cs =>
      if c = '\n' then lex (.plain cur) cs else lex (.plain (extend cur c true)) cs
  | .single w, c :: cs =>
      if c = '\'' then lex (.plain (some w)) cs else lex (.single (w ++ [⟨c, true⟩])) cs
  | .double w, c :: cs =>
      if c = '\"' then lex (.plain (some w)) cs
      else if c = '\\' then lex (.doubleEscape w) cs
      else if isExpansion c then none
      else lex (.double (w ++ [⟨c, true⟩])) cs
  | .doubleEscape w, c :: cs =>
      if c = '\n' then lex (.double w) cs
      else if isExpansion c ∨ c = '\"' ∨ c = '\\' then lex (.double (w ++ [⟨c, true⟩])) cs
      else lex (.double (w ++ [⟨'\\', true⟩, ⟨c, true⟩])) cs
  | .comment, c :: cs =>
      if c = '\n' then (lex (.plain none) cs).map (.newline :: ·) else lex .comment cs

/-- The tokens of a command line. -/
def tokens (line : String) : Option (List Token) := lex (.plain none) line.toList

variable {cs : List Char} {cur : Option Word} {w : Word}

theorem lex_plain_nil : lex (.plain cur) [] = some (delimit cur []) := by
  rw [lex]

theorem lex_plain_quote : lex (.plain cur) ('\'' :: cs) = lex (.single (cur.getD [])) cs := by
  rw [lex, if_pos rfl]

theorem lex_plain_space :
    lex (.plain cur) (' ' :: cs) = (lex (.plain none) cs).map (delimit cur) := by
  rw [lex, if_neg (by decide), if_neg (by decide), if_neg (by decide), if_pos (by decide)]

theorem lex_plain_escape {c : Char} (hc : c ≠ '\n') :
    lex (.plain cur) ('\\' :: c :: cs) = lex (.plain (extend cur c true)) cs := by
  rw [lex, if_neg (by decide), if_neg (by decide), if_pos rfl, lex, if_neg hc]

theorem lex_single_quote : lex (.single w) ('\'' :: cs) = lex (.plain (some w)) cs := by
  rw [lex, if_pos rfl]

theorem lex_single_cons {c : Char} (hc : c ≠ '\'') :
    lex (.single w) (c :: cs) = lex (.single (w ++ [⟨c, true⟩])) cs := by
  rw [lex, if_neg hc]

example : tokens "a\\ 'b c'\"d\" #e" =
    some [.word (⟨'a', false⟩ :: quoted " b cd".toList)] := by decide

/-! ### Expansion -/

/-- What the shell makes of a word, of which the lexer knows only this: the characters that are
quoted stand for themselves. -/
structure Expansion where
  expand : Word → List String
  literal : ∀ w, (∀ q ∈ w, q.quoted = true) → expand w = [quoteRemoval w]

instance : Inhabited Expansion := ⟨fun w => [quoteRemoval w], fun _ _ => rfl⟩

/-- The fields of a simple command. -/
def Expansion.fields (e : Expansion) (ws : List Word) : List String := ws.flatMap e.expand

theorem Expansion.fields_of_quoted (e : Expansion) {ws : List Word}
    (h : ∀ w ∈ ws, ∀ q ∈ w, q.quoted = true) : e.fields ws = ws.map quoteRemoval := by
  induction ws with
  | nil => rfl
  | cons w ws ih =>
      have hw := e.literal w (h w List.mem_cons_self)
      have hws := ih fun v hv => h v (List.mem_cons_of_mem _ hv)
      rw [fields, List.flatMap_cons, hw, List.map_cons, ← hws]
      rfl

end Sh
