import Unitpm.Lib.Sh
import Unitpm.Spawn

/-! # The command line of `sh -c`

With `shell` set, `build_command` runs `/bin/sh -c` on one string: the binary and its arguments,
each passed through `shell_quote`, with a space between them.  `shell_quote` wraps a token in single
quotes and writes a quote within it as `'\''`, so the shell is back between quotes after it.

Read by the rules of `Lib.Sh`, the string has one word for each token, and every character of these
words is quoted (`tokens_shellLine`).  The shell therefore runs the binary with its arguments as
they are, whatever they contain (`shellLine_fields`). -/

namespace Unitpm

open Sh (State lex quoted)

/-- What `shell_quote` writes between the outer quotes. -/
def quoteBody (cs : List Char) : List Char :=
  cs.flatMap fun c => if c = '\'' then "'\\''".toList else [c]

theorem toList_shellQuote (s : String) :
    (shellQuote s).toList = '\'' :: (quoteBody s.toList ++ ['\'']) := by
  simp [shellQuote, quoteBody]

/-- Between single quotes the lexer reads a token to its end and its closing quote. -/
theorem lex_quoteBody (cs rest : List Char) (w : Sh.Word) :
    lex (.single w) (quoteBody cs ++ '\'' :: rest) = lex (.plain (some (w ++ quoted cs))) rest := by
  induction cs generalizing w with
  | nil => simpa [quoteBody] using Sh.lex_single_quote
  | cons c cs ih =>
      by_cases hc : c = '\''
      · -- the quotes close, the backslash quotes one character, and the quotes open again
        have hbody : quoteBody (c :: cs) = '\'' :: '\\' :: '\'' :: '\'' :: quoteBody cs := by
          rw [quoteBody, List.flatMap_cons, if_pos hc]
          rfl
        rw [hbody, List.cons_append, List.cons_append, List.cons_append, List.cons_append,
          Sh.lex_single_quote, Sh.lex_plain_escape (by decide), Sh.lex_plain_quote, hc]
        calc lex (.single (w ++ [⟨'\'', true⟩])) (quoteBody cs ++ '\'' :: rest)
            = lex (.plain (some (w ++ [⟨'\'', true⟩] ++ quoted cs))) rest := ih _
          _ = lex (.plain (some (w ++ quoted ('\'' :: cs)))) rest := by
              rw [List.append_assoc]
              rfl
      · have hbody : quoteBody (c :: cs) = c :: quoteBody cs := by
          rw [quoteBody, List.flatMap_cons, if_neg hc]
          rfl
        rw [hbody, List.cons_append, Sh.lex_single_cons hc, ih, List.append_assoc]
        rfl

theorem lex_shellQuote (s : String) (rest : List Char) (cur : Option Sh.Word) :
    lex (.plain cur) ((shellQuote s).toList ++ rest) =
      lex (.plain (some (cur.getD [] ++ quoted s.toList))) rest := by
  rw [toList_shellQuote, List.cons_append, List.append_assoc, Sh.lex_plain_quote]
  exact lex_quoteBody s.toList rest _

theorem toList_shellLine (binary : String) (args : List String) :
    (shellLine binary args).toList =
      (shellQuote binary).toList ++ args.flatMap fun a => ' ' :: (shellQuote a).toList := by
  have hfold : ∀ (as : List String) (q : String),
      (as.foldl (fun q a => q ++ " " ++ shellQuote a) q).toList =
        q.toList ++ as.flatMap fun a => ' ' :: (shellQuote a).toList := by
    intro as
    induction as with
    | nil => simp
    | cons a as ih => intro q; rw [List.foldl_cons, ih]; simp
  exact hfold args (shellQuote binary)

theorem lex_args (args : List String) (w : Sh.Word) :
    lex (.plain (some w)) (args.flatMap fun a => ' ' :: (shellQuote a).toList) =
      some (.word w :: args.map fun a => .word (quoted a.toList)) := by
  induction args generalizing w with
  | nil => exact Sh.lex_plain_nil
  | cons a args ih =>
      rw [List.flatMap_cons, List.cons_append, Sh.lex_plain_space, lex_shellQuote, ih]
      rfl

theorem tokens_shellLine (binary : String) (args : List String) :
    Sh.tokens (shellLine binary args) =
      some ((binary :: args).map fun a => .word (quoted a.toList)) := by
  rw [Sh.tokens, toList_shellLine, lex_shellQuote, lex_args]
  rfl

theorem quoteRemoval_tokens (l : List String) :
    (l.map fun a => quoted a.toList).map Sh.quoteRemoval = l := by
  have h : (Sh.quoteRemoval ∘ fun a => quoted a.toList) = (id : String → String) := by
    funext a
    exact (Sh.quoteRemoval_quoted a.toList).trans String.ofList_toList
  rw [List.map_map, h, List.map_id]

/-- The shell splits the line that `build_command` passes to it into words whose characters are all
quoted; they are the binary and its arguments, and no expansion changes them. -/
theorem shellLine_fields (binary : String) (args : List String) :
    (buildCommand binary args true).program = "/bin/sh" ∧
      ∃ line, (buildCommand binary args true).args = ["-c", line] ∧
        ∃ ws : List Sh.Word, Sh.tokens line = some (ws.map .word) ∧
          (∀ w ∈ ws, ∀ q ∈ w, q.quoted = true) ∧
          ws.map Sh.quoteRemoval = binary :: args ∧
          ∀ e : Sh.Expansion, e.fields ws = binary :: args := by
  have hq : ∀ w ∈ (binary :: args).map fun a => quoted a.toList, ∀ q ∈ w, q.quoted = true := by
    intro w hw q hqw
    obtain ⟨a, -, rfl⟩ := List.mem_map.mp hw
    exact Sh.quoted_of_mem hqw
  have hrem := quoteRemoval_tokens (binary :: args)
  refine ⟨rfl, shellLine binary args, rfl, (binary :: args).map fun a => quoted a.toList, ?_, hq,
    hrem, ?_⟩
  · rw [tokens_shellLine, List.map_map]
    rfl
  · intro e
    rw [e.fields_of_quoted hq, hrem]

end Unitpm
