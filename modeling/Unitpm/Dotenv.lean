import Unitpm.Lib.Str
import Unitpm.Lib.Overlay

/-! # The `.env` reader

`internal/env`: `parse_str` and the helpers under it.  Blank lines and lines that start with
`#` are skipped, a line is split at its first `=`, and the value is read as double-quoted,
single-quoted or unquoted by its first character.

The three readers differ only in where the value ends, which `cutAt` takes as a test on two
neighbouring characters.  A value comes back unchanged exactly when it is trimmed and that
test never fires in it (`parseValue_trim_eq_self_iff`). -/

namespace Unitpm.Dotenv

open Rust.Str

/-! ### Definitions -/

/-- The characters before the first one at which `stop` holds of it and its predecessor
(`prev` for the first character of the list); `none` when there is no such character. -/
def cutAt (stop : Char → Char → Bool) : Char → List Char → Option (List Char)
  | _, [] => none
  | prev, c :: l => if stop prev c then some [] else (cutAt stop c l).map (c :: ·)

/-- A closing double quote: not preceded by a backslash. -/
def closesDouble (prev c : Char) : Bool := c == '"' && prev != '\\'

/-- A closing single quote: no escapes. -/
def closesSingle (_ c : Char) : Bool := c == '\''

/-- An inline comment: `#` after a blank or a tab. -/
def opensComment (prev c : Char) : Bool := c == '#' && (prev == ' ' || prev == '\t')

/-- `content.replace("\\\"", "\"")`. -/
def unescapeQuotes : List Char → List Char
  | '\\' :: '"' :: l => '"' :: unescapeQuotes l
  | c :: l => c :: unescapeQuotes l
  | [] => []

/-- `parse_double_quoted`, on the characters after the opening quote. -/
def parseDoubleQuoted (rest : List Char) : List Char :=
  match cutAt closesDouble '"' rest with
  | some content => unescapeQuotes content
  | none => '"' :: rest

/-- `parse_single_quoted`, on the characters after the opening quote. -/
def parseSingleQuoted (rest : List Char) : List Char :=
  match cutAt closesSingle '\'' rest with
  | some content => content
  | none => '\'' :: rest

/-- `parse_unquoted`, on a non-empty value `c :: rest` (a `#` in first position is text). -/
def parseUnquoted (c : Char) (rest : List Char) : List Char :=
  match cutAt opensComment c rest with
  | some before => trim (c :: before)
  | none => trim (c :: rest)

def parseValue : List Char → List Char
  | [] => []
  | c :: rest =>
      if c = '"' then parseDoubleQuoted rest
      else if c = '\'' then parseSingleQuoted rest
      else parseUnquoted c rest

def parseLine (line : List Char) : Option (List Char × List Char) :=
  match splitOnce '=' line with
  | none => none
  | some (keyRaw, valueRaw) =>
      let key := trim keyRaw
      if key = [] then none else some (key, parseValue (trim valueRaw))

/-- The assignment a raw line of the file makes, if it makes one. -/
def lineAssign (raw : List Char) : Option (String × String) :=
  let line := trim raw
  if line = [] ∨ line.head? = some '#' then none
  else (parseLine line).map fun p => (String.ofList p.1, String.ofList p.2)

/-- `parse_str`. -/
def parseStr (text : String) : AList fun _ : String => String :=
  ((lines text.toList).filterMap lineAssign).foldl (fun out p => out.insert p.1 p.2) ∅

/-! ### Where a value ends -/

theorem cutAt_eq_none_iff {stop : Char → Char → Bool} : ∀ {prev : Char} {l : List Char},
    cutAt stop prev l = none ↔ (prev :: l).IsChain fun p c => stop p c = false
  | prev, [] => by simp [cutAt]
  | prev, c :: l => by
      rw [cutAt, List.isChain_cons_cons]
      by_cases h : stop prev c = true
      · simp [h]
      · have h' : stop prev c = false := by simpa using h
        rw [if_neg h, Option.map_eq_none_iff, cutAt_eq_none_iff (l := l)]
        simp [h']

theorem exists_of_cutAt {stop : Char → Char → Bool} : ∀ {prev : Char} {l m : List Char},
    cutAt stop prev l = some m → ∃ c t, l = m ++ c :: t
  | prev, [], m, h => by cases h
  | prev, c :: l, m, h => by
      rw [cutAt] at h
      split at h
      · obtain rfl := Option.some.inj h
        exact ⟨c, l, rfl⟩
      · obtain ⟨n, hn, rfl⟩ := Option.map_eq_some_iff.mp h
        obtain ⟨d, t, rfl⟩ := exists_of_cutAt hn
        exact ⟨d, t, rfl⟩

theorem cutAt_length_lt {stop : Char → Char → Bool} {prev : Char} {l m : List Char}
    (h : cutAt stop prev l = some m) : m.length < l.length := by
  obtain ⟨c, t, rfl⟩ := exists_of_cutAt h
  simp only [List.length_append, List.length_cons]
  omega

theorem cutAt_subset {stop : Char → Char → Bool} {prev : Char} {l m : List Char}
    (h : cutAt stop prev l = some m) : m ⊆ l := by
  obtain ⟨c, t, rfl⟩ := exists_of_cutAt h
  exact List.subset_append_left m (c :: t)

theorem unescapeQuotes_sublist (l : List Char) : (unescapeQuotes l).Sublist l := by
  fun_induction unescapeQuotes l with
  | case1 l ih => exact (ih.cons_cons _).cons _
  | case2 c l _ ih => exact ih.cons_cons c
  | case3 => exact List.Sublist.refl []

theorem trim_length_le (l : List Char) : (trim l).length ≤ l.length := (isInfix_trim l).length_le

/-! ### Values that survive -/

/-- The test that ends a value, by its first character. -/
def stopOf (c : Char) : Char → Char → Bool :=
  if c = '"' then closesDouble else if c = '\'' then closesSingle else opensComment

/-- The values `parse_value` hands back unchanged: no blank at either end, no closing quote
after an opening one, no `#` after a blank in an unquoted value. -/
def Survives (v : List Char) : Prop :=
  Trimmed v ∧ ∀ c ∈ v.head?, v.IsChain fun p d => stopOf c p d = false

instance (v : List Char) : Decidable (Survives v) :=
  haveI := Option.decidableForallMem
    (p := fun c => v.IsChain fun p d => stopOf c p d = false) v.head?
  instDecidableAnd

theorem parseValue_of_chain {c : Char} {rest : List Char} (ht : Trimmed (c :: rest))
    (h : (c :: rest).IsChain fun p d => stopOf c p d = false) :
    parseValue (c :: rest) = c :: rest := by
  rw [← cutAt_eq_none_iff] at h
  unfold stopOf at h
  simp only [parseValue]
  split_ifs at h ⊢ with h1 h2
  · subst h1
    rw [parseDoubleQuoted, h]
  · subst h2
    rw [parseSingleQuoted, h]
  · rw [parseUnquoted, h]
    exact trim_eq_self ht

theorem parseValue_length_lt {c : Char} {rest : List Char}
    (h : ¬ (c :: rest).IsChain fun p d => stopOf c p d = false) :
    (parseValue (c :: rest)).length < (c :: rest).length := by
  rw [← cutAt_eq_none_iff] at h
  obtain ⟨m, hm⟩ := Option.ne_none_iff_exists'.mp h
  have hlt := cutAt_length_lt hm
  unfold stopOf at hm
  simp only [parseValue]
  split_ifs at hm ⊢ with h1 h2
  · subst h1
    have := (unescapeQuotes_sublist m).length_le
    rw [parseDoubleQuoted, hm]
    simp only [List.length_cons]
    omega
  · subst h2
    rw [parseSingleQuoted, hm]
    simp only [List.length_cons]
    omega
  · have := trim_length_le (c :: m)
    rw [parseUnquoted, hm]
    simp only [List.length_cons] at this ⊢
    omega

/-- A value written as it stands is read back unchanged iff it survives. -/
theorem parseValue_trim_eq_self_iff (v : List Char) : parseValue (trim v) = v ↔ Survives v := by
  constructor
  · intro h
    cases ht : trim v with
    | nil =>
        rw [ht] at h
        obtain rfl : [] = v := h
        exact ⟨by simp [Trimmed], by simp⟩
    | cons c rest =>
        rw [ht] at h
        have hc : (c :: rest).IsChain fun p d => stopOf c p d = false := by
          by_contra hn
          have h1 := parseValue_length_lt hn
          have h2 := trim_length_le v
          rw [h] at h1
          rw [ht] at h2
          omega
        have htr : Trimmed (c :: rest) := ht ▸ trimmed_trim v
        obtain rfl : c :: rest = v := (parseValue_of_chain htr hc).symm.trans h
        refine ⟨htr, fun d hd => ?_⟩
        obtain rfl : c = d := by simpa using hd
        exact hc
  · rintro ⟨ht, hc⟩
    rw [trim_eq_self ht]
    cases v with
    | nil => rfl
    | cons c rest => exact parseValue_of_chain ht (hc c rfl)

example : Survives "a#b".toList ∧ ¬ Survives "a #b".toList := by decide

end Unitpm.Dotenv
