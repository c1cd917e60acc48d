import Mathlib.Data.List.Infix
import Mathlib.Data.List.DropRight
import Mathlib.Algebra.GroupWithZero.Nat
import Mathlib.Tactic.Common

/-! # Rust string slices

The operations of `str` that a translation of Rust code needs, over `List Char`: the
characters of the slice.  Byte offsets never appear; every function here that Rust defines on
bytes looks for an ASCII byte, and an ASCII byte of a UTF-8 string is exactly one character.

* `isWhitespace` is the Unicode `White_Space` property, as `char::is_whitespace` has it;
* `trim`, `splitWhitespace`, `splitOnce`, `lines`, `joinWith` follow the functions of the
  same names;
* `parseUnsigned` is `u32::from_str` / `u64::from_str` with the bound as a parameter (an
  optional `+`, at least one digit, no overflow), and `parseSigned` is `i32::from_str` /
  `i64::from_str`. -/

namespace Rust.Str

/-- `char::is_whitespace`: the Unicode `White_Space` property. -/
def isWhitespace (c : Char) : Bool :=
  let n := c.toNat
  (9 ≤ n && n ≤ 13) || n == 0x20 || n == 0x85 || n == 0xA0 || n == 0x1680 ||
    (0x2000 ≤ n && n ≤ 0x200A) || n == 0x2028 || n == 0x2029 || n == 0x202F || n == 0x205F ||
    n == 0x3000

/-! ### Trimming -/

/-- `str::trim_start`. -/
def trimStart (l : List Char) : List Char := l.dropWhile isWhitespace

/-- `str::trim_end`. -/
def trimEnd (l : List Char) : List Char := l.rdropWhile isWhitespace

/-- `str::trim`. -/
def trim (l : List Char) : List Char := trimEnd (trimStart l)

/-- A slice that `trim` leaves alone: neither end is white space. -/
def Trimmed (l : List Char) : Prop :=
  (∀ c ∈ l.head?, isWhitespace c = false) ∧ (∀ c ∈ l.getLast?, isWhitespace c = false)

-- the instance is named: with all of Mathlib in scope the search would run over all characters
instance (l : List Char) : Decidable (Trimmed l) :=
  haveI := Option.decidableForallMem (p := fun c => isWhitespace c = false) l.head?
  haveI := Option.decidableForallMem (p := fun c => isWhitespace c = false) l.getLast?
  instDecidableAnd

@[simp] theorem trim_nil : trim [] = [] := rfl

theorem isInfix_trim (l : List Char) : trim l <:+: l :=
  (List.rdropWhile_prefix _ _).isInfix.trans (List.dropWhile_suffix _).isInfix

theorem mem_of_mem_trim {l : List Char} {c : Char} (h : c ∈ trim l) : c ∈ l :=
  (isInfix_trim l).subset h

theorem trimStart_eq_self {l : List Char} (h : ∀ c ∈ l.head?, isWhitespace c = false) :
    trimStart l = l := by
  cases l with
  | nil => rfl
  | cons c l => simp [trimStart, List.dropWhile, h c rfl]

theorem trimEnd_eq_self {l : List Char} (h : ∀ c ∈ l.getLast?, isWhitespace c = false) :
    trimEnd l = l := by
  rw [trimEnd, List.rdropWhile_eq_self_iff]
  intro hl
  simp [h _ (List.getLast?_eq_getLast_of_ne_nil hl)]

theorem trim_eq_self {l : List Char} (h : Trimmed l) : trim l = l := by
  rw [trim, trimStart_eq_self h.1, trimEnd_eq_self h.2]

theorem head?_trimStart (l : List Char) : ∀ c ∈ (trimStart l).head?, isWhitespace c = false := by
  intro c hc
  have := List.head?_dropWhile_not isWhitespace l
  rw [show (l.dropWhile isWhitespace).head? = some c from hc] at this
  exact this

theorem getLast?_trimEnd (l : List Char) : ∀ c ∈ (trimEnd l).getLast?, isWhitespace c = false := by
  intro c hc
  rw [trimEnd, List.rdropWhile, List.getLast?_reverse] at hc
  exact head?_trimStart l.reverse c hc

theorem head?_trimEnd {l : List Char} (h : ∀ c ∈ l.head?, isWhitespace c = false) :
    ∀ c ∈ (trimEnd l).head?, isWhitespace c = false := by
  intro c hc
  apply h c
  obtain ⟨t, ht⟩ : trimEnd l <+: l := List.rdropWhile_prefix _ _
  rw [← ht, List.head?_append, hc]
  rfl

theorem trimmed_trim (l : List Char) : Trimmed (trim l) :=
  ⟨head?_trimEnd (head?_trimStart l), getLast?_trimEnd _⟩

theorem trim_append_whitespace {l : List Char} {c : Char} (hc : isWhitespace c = true) :
    trim (l ++ [c]) = trim l := by
  rw [trim, trim, trimEnd, trimEnd, trimStart, trimStart, List.dropWhile_append]
  split
  · rename_i h
    have e : l.dropWhile isWhitespace = [] := by simpa using h
    rw [e]
    simp [List.dropWhile, hc]
  · exact List.rdropWhile_concat_pos _ _ _ hc

theorem trim_append_of_forall {l : List Char} : ∀ {m : List Char},
    (∀ c ∈ m, isWhitespace c = true) → trim (l ++ m) = trim l := by
  intro m
  induction m using List.reverseRecOn with
  | nil => intro _; rw [List.append_nil]
  | append_singleton m c ih =>
      intro h
      rw [← List.append_assoc, trim_append_whitespace (h c (by simp))]
      exact ih fun d hd => h d (by simp [hd])

theorem trim_trimEnd (l : List Char) : trim (trimEnd l) = trim l := by
  have e : trimEnd l ++ l.rtakeWhile isWhitespace = l := List.rdropWhile_append_rtakeWhile
  conv_rhs => rw [← e]
  exact (trim_append_of_forall fun c hc => List.mem_rtakeWhile_imp hc).symm

theorem trimEnd_append_cons (l m : List Char) {c : Char} (hc : isWhitespace c = false) :
    trimEnd (l ++ c :: m) = l ++ c :: trimEnd m := by
  have h : trimEnd (l ++ c :: m) = (l ++ [c]) ++ trimEnd m := by
    induction m using List.reverseRecOn with
    | nil => simpa [trimEnd] using List.rdropWhile_concat_neg isWhitespace l c (by simp [hc])
    | append_singleton m d ih =>
        have e : l ++ c :: (m ++ [d]) = (l ++ c :: m) ++ [d] := by simp
        rw [e]
        by_cases hd : isWhitespace d = true
        · rw [trimEnd, trimEnd, List.rdropWhile_concat_pos _ _ _ hd,
            List.rdropWhile_concat_pos _ _ _ hd]
          exact ih
        · rw [trimEnd, trimEnd, List.rdropWhile_concat_neg _ _ _ hd,
            List.rdropWhile_concat_neg _ _ _ hd]
          simp
  simpa using h

/-! ### Splitting -/

/-- `str::split_once` at a character. -/
def splitOnce (c : Char) : List Char → Option (List Char × List Char)
  | [] => none
  | x :: l => if x = c then some ([], l) else (splitOnce c l).map fun p => (x :: p.1, p.2)

theorem splitOnce_append {c : Char} : ∀ {k : List Char} (v : List Char), c ∉ k →
    splitOnce c (k ++ c :: v) = some (k, v)
  | [], v, _ => by simp [splitOnce]
  | x :: k, v, h => by
      have hx : x ≠ c := fun e => h (by simp [e])
      have hk : c ∉ k := fun e => h (by simp [e])
      simp [splitOnce, hx, splitOnce_append v hk]

theorem splitOnce_spec {c : Char} : ∀ {l k v : List Char}, splitOnce c l = some (k, v) →
    l = k ++ c :: v ∧ c ∉ k
  | [], k, v, h => by simp [splitOnce] at h
  | x :: l, k, v, h => by
      simp only [splitOnce] at h
      split at h
      · rename_i hx
        obtain ⟨rfl, rfl⟩ := Prod.mk.inj (Option.some.inj h)
        exact ⟨by simp [hx], by simp⟩
      · rename_i hx
        obtain ⟨⟨k', v'⟩, hs, he⟩ := Option.map_eq_some_iff.mp h
        obtain ⟨rfl, rfl⟩ := Prod.mk.inj he
        obtain ⟨e, hn⟩ := splitOnce_spec hs
        refine ⟨by simp [e], ?_⟩
        simp only [List.mem_cons, not_or]
        exact ⟨fun e => hx e.symm, hn⟩

theorem splitOnce_eq_none {c : Char} : ∀ {l : List Char}, splitOnce c l = none ↔ c ∉ l
  | [] => by simp [splitOnce]
  | x :: l => by
      by_cases hx : x = c
      · simp [splitOnce, hx]
      · have hx' : ¬ c = x := fun e => hx e.symm
        simp [splitOnce, hx, hx', splitOnce_eq_none (l := l)]

/-- `str::split_once` on strings. -/
def splitOnceAt (c : Char) (s : String) : Option (String × String) :=
  (splitOnce c s.toList).map fun p => (String.ofList p.1, String.ofList p.2)

/-- A piece of a split holds no separator. -/
theorem not_mem_of_mem_splitOn {α : Type} [DecidableEq α] {a : α} {l s : List α}
    (hs : s ∈ l.splitOn a) : a ∉ s := by
  induction l generalizing s with
  | nil =>
      obtain rfl : s = [] := by simpa using hs
      simp
  | cons c l ih =>
      by_cases hc : c = a
      · rw [hc, show a :: l = [] ++ a :: l from rfl, List.splitOn_append_cons_self] at hs
        rcases List.mem_append.mp hs with h | h
        · obtain rfl : s = [] := by simpa using h
          simp
        · exact ih h
      · obtain ⟨b, r, hr⟩ := List.exists_cons_of_ne_nil (List.splitOn_ne_nil a l)
        have hcb : (c == a) = false := by simpa using hc
        rw [List.splitOn_cons_eq_if_modifyHead, hr, hcb] at hs
        simp only [Bool.false_eq_true, if_false, List.modifyHead_cons, List.mem_cons] at hs
        rcases hs with rfl | hs
        · intro hm
          rcases List.mem_cons.mp hm with e | e
          · exact hc e.symm
          · exact ih (hr ▸ List.mem_cons_self) e
        · exact ih (hr ▸ List.mem_cons_of_mem _ hs)

/-- `str::split_whitespace`: the non-empty pieces between white space. -/
def splitWhitespace (l : List Char) : List (List Char) :=
  (l.splitOnP isWhitespace).filter (fun p => !p.isEmpty)

/-- A piece between separators has none. -/
theorem of_mem_splitOnP {α : Type} {p : α → Bool} {l w : List α} (h : w ∈ l.splitOnP p) :
    ∀ a ∈ w, p a = false := by
  induction l generalizing w with
  | nil =>
      obtain rfl : w = [] := by simpa using h
      simp
  | cons x l ih =>
      obtain ⟨v, vs, hv⟩ := List.exists_cons_of_ne_nil (List.splitOnP_ne_nil p l)
      rw [List.splitOnP_cons_eq_if_modifyHead, hv] at h
      cases hx : p x with
      | true =>
          rw [hx, if_pos rfl, List.mem_cons] at h
          rcases h with rfl | h
          · simp
          · exact ih (hv ▸ h)
      | false =>
          rw [hx, if_neg Bool.false_ne_true, List.modifyHead_cons, List.mem_cons] at h
          rcases h with rfl | h
          · have := ih (w := v) (hv ▸ List.mem_cons_self)
            simpa [hx] using this
          · exact ih (hv ▸ List.mem_cons_of_mem _ h)

theorem of_mem_splitWhitespace {l w : List Char} (h : w ∈ splitWhitespace l) :
    w ≠ [] ∧ ∀ c ∈ w, isWhitespace c = false := by
  obtain ⟨hm, hne⟩ := List.mem_filter.mp h
  exact ⟨by simpa using hne, of_mem_splitOnP hm⟩

theorem splitWhitespace_intercalate (ws : List (List Char))
    (h : ∀ w ∈ ws, w ≠ [] ∧ ∀ c ∈ w, isWhitespace c = false) :
    splitWhitespace ([' '].intercalate ws) = ws := by
  induction ws with
  | nil => rfl
  | cons w ws ih =>
      obtain ⟨hne, hw⟩ := h w (by simp)
      have hne' : (!w.isEmpty) = true := by simpa using hne
      have hws := ih fun v hv => h v (by simp [hv])
      cases ws with
      | nil =>
          rw [show [' '].intercalate [w] = w by simp [List.intercalate], splitWhitespace,
            List.splitOnP_eq_singleton hw]
          simp [hne']
      | cons v ws =>
          rw [show [' '].intercalate (w :: v :: ws) = w ++ ' ' :: [' '].intercalate (v :: ws) by
            simp [List.intercalate], splitWhitespace,
            List.splitOnP_append_cons_of_forall_mem hw ' ' (by decide),
            List.filter_cons, if_pos hne']
          exact congrArg _ hws

/-! ### Lines -/

/-- One `\r` before a line feed belongs to the line ending. -/
def stripCr (l : List Char) : List Char := if l.getLast? = some '\r' then l.dropLast else l

/-- `str::lines`: the pieces between line feeds; a final line feed ends the last line, and a
`\r` is dropped only where a line feed follows. -/
def lines (l : List Char) : List (List Char) :=
  let segs := l.splitOn '\n'
  segs.dropLast.map stripCr ++ segs.getLast?.toList.filter (fun s => !s.isEmpty)

/-- Lines, each with its line feed. -/
def unlines (ls : List (List Char)) : List Char := ls.flatMap fun l => l ++ ['\n']

@[simp] theorem unlines_nil : unlines [] = [] := rfl

theorem splitOn_unlines_append {ls : List (List Char)} (h : ∀ l ∈ ls, '\n' ∉ l) (m : List Char) :
    (unlines ls ++ m).splitOn '\n' = ls ++ m.splitOn '\n' := by
  induction ls with
  | nil => rfl
  | cons l ls ih =>
      have hl : '\n' ∉ l := h l (by simp)
      have e : unlines (l :: ls) ++ m = l ++ '\n' :: (unlines ls ++ m) := by simp [unlines]
      rw [e, List.splitOn_append_cons_self_of_not_mem hl, ih fun k hk => h k (by simp [hk]),
        List.cons_append]

theorem trim_stripCr (l : List Char) : trim (stripCr l) = trim l := by
  unfold stripCr
  split
  · rename_i h
    obtain ⟨m, rfl⟩ := List.getLast?_eq_some_iff.mp h
    rw [List.dropLast_concat, trim_append_whitespace (by decide)]
  · rfl

/-- `a.join(sep)`. -/
def joinWith (sep : Char) (ls : List (List Char)) : List Char := [sep].intercalate ls

theorem joinWith_cons_cons (sep : Char) (a b : List Char) (ls : List (List Char)) :
    joinWith sep (a :: b :: ls) = a ++ sep :: joinWith sep (b :: ls) := by
  simp [joinWith, List.intercalate, List.intersperse]

/-! ### Prefixes and numbers -/

/-- `str::starts_with` on strings. -/
def startsWith (p s : String) : Bool := p.toList.isPrefixOf s.toList

/-- `str::strip_prefix` on strings. -/
def stripPrefix? (p s : String) : Option String :=
  if startsWith p s then some (String.ofList (s.toList.drop p.toList.length)) else none

/-- One character of `{:?}`; unprintable characters, which Rust writes as `\u`, are left as
they are. -/
def escapeDebug (c : Char) : List Char :=
  if c = '"' then ['\\', '"']
  else if c = '\\' then ['\\', '\\']
  else if c = '\n' then ['\\', 'n']
  else if c = '\r' then ['\\', 'r']
  else if c = '\t' then ['\\', 't']
  else [c]

/-- `format!("{s:?}")`. -/
def debug (s : String) : String :=
  String.ofList ('"' :: (s.toList.flatMap escapeDebug ++ ['"']))

/-- Value of a digit string, most significant digit first. -/
def digitsVal (l : List Char) : ℕ := l.foldl (fun n c => 10 * n + (c.toNat - '0'.toNat)) 0

/-- `from_str` of an unsigned type whose largest value is `max`. -/
def parseUnsigned (max : ℕ) (l : List Char) : Option ℕ :=
  let ds := match l with
    | '+' :: ds => ds
    | ds => ds
  if ds ≠ [] ∧ ds.all Char.isDigit ∧ digitsVal ds ≤ max then some (digitsVal ds) else none

/-- `from_str` of a signed type with the values from `-min` to `max`. -/
def parseSigned (min max : ℕ) : List Char → Option ℤ
  | '-' :: ds =>
      if ds ≠ [] ∧ ds.all Char.isDigit ∧ digitsVal ds ≤ min then some (-digitsVal ds) else none
  | l => (parseUnsigned max l).map Int.ofNat

/-- `l` is the decimal number `n`; a plus sign may stand before it. -/
def IsNumeral (l : List Char) (n : ℕ) : Prop :=
  ∃ ds, (l = ds ∨ l = '+' :: ds) ∧ ds ≠ [] ∧ (∀ c ∈ ds, c.isDigit = true) ∧ digitsVal ds = n

theorem parseUnsigned_plus {ds : List Char} {max : ℕ} :
    parseUnsigned max ('+' :: ds) =
      if ds ≠ [] ∧ ds.all Char.isDigit ∧ digitsVal ds ≤ max then some (digitsVal ds) else none :=
  rfl

theorem parseUnsigned_of_no_plus {ds : List Char} {max : ℕ} (h : ds.head? ≠ some '+') :
    parseUnsigned max ds =
      if ds ≠ [] ∧ ds.all Char.isDigit ∧ digitsVal ds ≤ max then some (digitsVal ds) else none := by
  cases ds with
  | nil => rfl
  | cons c ds =>
      have hplus : ∀ ds', c :: ds = '+' :: ds' → False := fun ds' e => h (by rw [e]; rfl)
      simp only [parseUnsigned]

theorem head?_ne_of_isDigit {ds : List Char} {c : Char} (hd : ∀ c ∈ ds, c.isDigit = true)
    (hc : c.isDigit = false) : ds.head? ≠ some c := by
  intro h
  rw [hd c (List.mem_of_mem_head? h)] at hc
  exact Bool.noConfusion hc

theorem parseUnsigned_eq_some_iff {l : List Char} {max n : ℕ} :
    parseUnsigned max l = some n ↔ IsNumeral l n ∧ n ≤ max := by
  constructor
  · intro h
    by_cases hplus : l.head? = some '+'
    · obtain ⟨ds, rfl⟩ := List.head?_eq_some_iff.1 hplus
      rw [parseUnsigned_plus] at h
      split_ifs at h with hc
      obtain rfl := Option.some.inj h
      exact ⟨⟨ds, .inr rfl, hc.1, List.all_eq_true.1 hc.2.1, rfl⟩, hc.2.2⟩
    · rw [parseUnsigned_of_no_plus hplus] at h
      split_ifs at h with hc
      obtain rfl := Option.some.inj h
      exact ⟨⟨l, .inl rfl, hc.1, List.all_eq_true.1 hc.2.1, rfl⟩, hc.2.2⟩
  · rintro ⟨⟨ds, hl, hne, hd, rfl⟩, hmax⟩
    have hc : ds ≠ [] ∧ ds.all Char.isDigit ∧ digitsVal ds ≤ max :=
      ⟨hne, List.all_eq_true.2 hd, hmax⟩
    rcases hl with rfl | rfl
    · rw [parseUnsigned_of_no_plus (head?_ne_of_isDigit hd (by decide)), if_pos hc]
    · rw [parseUnsigned_plus, if_pos hc]

/-- A positive number is read the same with a sign as without. -/
theorem parseSigned_eq_some_iff {l : List Char} {min max n : ℕ} (hn : 0 < n) :
    parseSigned min max l = some (n : ℤ) ↔ IsNumeral l n ∧ n ≤ max := by
  unfold parseSigned
  split
  · rename_i ds
    refine iff_of_false (fun h => ?_) ?_
    · split_ifs at h
      have := Option.some.inj h
      omega
    · rintro ⟨⟨ds', hl, -, hd, -⟩, -⟩
      rcases hl with rfl | hl
      · exact head?_ne_of_isDigit hd (by decide) rfl
      · exact absurd (List.cons.inj hl).1 (by decide)
  · rw [← parseUnsigned_eq_some_iff, Option.map_eq_some_iff]
    exact ⟨fun ⟨m, hm, e⟩ => Int.ofNat.inj e ▸ hm, fun h => ⟨n, h, rfl⟩⟩

/-! ### Padded numbers -/

/-- `format!("{n:0w$}")` of a number that is not negative. -/
def padZero (w n : ℕ) : List Char := List.leftpad w '0' (Nat.toDigits 10 n)

theorem isDigit_of_mem_padZero {w n : ℕ} : ∀ c ∈ padZero w n, c.isDigit = true := by
  intro c hc
  rw [padZero, List.leftpad] at hc
  rcases List.mem_append.mp hc with h | h
  · rw [List.eq_of_mem_replicate h]
    decide
  · exact Nat.isDigit_of_mem_toDigits (by decide) (by decide) h

theorem length_padZero {w n : ℕ} (hw : 0 < w) (h : n < 10 ^ w) : (padZero w n).length = w := by
  have hl := (Nat.length_toDigits_le_iff (b := 10) (by decide) hw).mpr h
  rw [padZero, List.leftpad, List.length_append, List.length_replicate]
  omega

theorem padZero_ne_nil {w n : ℕ} : padZero w n ≠ [] := by
  have h := Nat.toDigits_ne_nil (n := n) (b := 10)
  simp [padZero, List.leftpad, h]

theorem digitsVal_replicate (k : ℕ) : digitsVal (List.replicate k '0') = 0 := by
  induction k with
  | zero => rfl
  | succ k ih => rw [List.replicate_succ]; exact ih

theorem digitsVal_padZero (w n : ℕ) : digitsVal (padZero w n) = n := by
  rw [padZero, List.leftpad, digitsVal, List.foldl_append]
  rw [show (List.replicate (w - (Nat.toDigits 10 n).length) '0').foldl
    (fun n c => 10 * n + (c.toNat - '0'.toNat)) 0 = 0 from digitsVal_replicate _]
  exact Nat.ofDigitChars_ten_toDigits

theorem parseUnsigned_digits {l : List Char} {max : ℕ} (hne : l ≠ [])
    (hd : ∀ c ∈ l, c.isDigit = true) (h : digitsVal l ≤ max) :
    parseUnsigned max l = some (digitsVal l) :=
  parseUnsigned_eq_some_iff.2 ⟨⟨l, .inl rfl, hne, hd, rfl⟩, h⟩

theorem parseSigned_digits {l : List Char} {min max : ℕ} (hne : l ≠ [])
    (hd : ∀ c ∈ l, c.isDigit = true) (h : digitsVal l ≤ max) :
    parseSigned min max l = some (digitsVal l : ℤ) := by
  unfold parseSigned
  split
  · exact absurd (hd '-' (by simp)) (by decide)
  · rw [parseUnsigned_digits hne hd h]
    rfl

theorem parseUnsigned_padZero {w n max : ℕ} (h : n ≤ max) :
    parseUnsigned max (padZero w n) = some n := by
  have hval := digitsVal_padZero w n
  rw [parseUnsigned_digits padZero_ne_nil isDigit_of_mem_padZero (hval.trans_le h), hval]

theorem parseSigned_padZero {w n min max : ℕ} (h : n ≤ max) :
    parseSigned min max (padZero w n) = some (n : ℤ) := by
  have hval := digitsVal_padZero w n
  rw [parseSigned_digits padZero_ne_nil isDigit_of_mem_padZero (hval.trans_le h), hval]

/-! ### The value of digits -/

theorem digitsVal_concat (l : List Char) (c : Char) :
    digitsVal (l ++ [c]) = 10 * digitsVal l + (c.toNat - '0'.toNat) := by
  rw [digitsVal, List.foldl_append]
  rfl

theorem digitsVal_append (l m : List Char) :
    digitsVal (l ++ m) = digitsVal l * 10 ^ m.length + digitsVal m := by
  induction m using List.reverseRecOn with
  | nil => simp [digitsVal]
  | append_singleton m c ih =>
      rw [← List.append_assoc, digitsVal_concat, ih, digitsVal_concat, List.length_append,
        List.length_singleton, pow_succ, Nat.mul_add, ← Nat.mul_assoc, Nat.mul_comm 10,
        Nat.mul_assoc, Nat.mul_comm (10 ^ m.length) 10]
      omega

theorem isDigit_bounds {c : Char} (h : c.isDigit = true) : 48 ≤ c.toNat ∧ c.toNat ≤ 57 := by
  simp only [Char.isDigit, Bool.and_eq_true, decide_eq_true_eq] at h
  exact ⟨UInt32.le_iff_toNat_le.mp h.1, UInt32.le_iff_toNat_le.mp h.2⟩

theorem digitsVal_inj {l m : List Char} (hlen : l.length = m.length)
    (hl : ∀ c ∈ l, c.isDigit = true) (hm : ∀ c ∈ m, c.isDigit = true)
    (h : digitsVal l = digitsVal m) : l = m := by
  induction l using List.reverseRecOn generalizing m with
  | nil => exact (List.length_eq_zero_iff.mp hlen.symm).symm
  | append_singleton l c ih =>
      rcases List.eq_nil_or_concat m with rfl | ⟨m, d, rfl⟩
      · simp at hlen
      · rw [List.concat_eq_append] at *
        have hc := isDigit_bounds (hl c (by simp))
        have hd := isDigit_bounds (hm d (by simp))
        have hz : '0'.toNat = 48 := rfl
        rw [digitsVal_concat, digitsVal_concat, hz] at h
        have hcd : c = d := Char.toNat_inj.mp (by omega)
        have hlm : digitsVal l = digitsVal m := by omega
        rw [ih (by simpa using hlen) (fun x hx => hl x (by simp [hx]))
          (fun x hx => hm x (by simp [hx])) hlm, hcd]

theorem digitsVal_lt {l : List Char} (h : ∀ c ∈ l, c.isDigit = true) :
    digitsVal l < 10 ^ l.length := by
  induction l using List.reverseRecOn with
  | nil => decide
  | append_singleton l c ih =>
      have hc := isDigit_bounds (h c (by simp))
      have hz : '0'.toNat = 48 := rfl
      have := ih fun x hx => h x (by simp [hx])
      rw [digitsVal_concat, List.length_append, List.length_singleton, pow_succ, hz]
      omega

theorem padZero_digitsVal {w : ℕ} {l : List Char} (hw : 0 < w) (hlen : l.length = w)
    (h : ∀ c ∈ l, c.isDigit = true) : padZero w (digitsVal l) = l := by
  have hlt : digitsVal l < 10 ^ w := hlen ▸ digitsVal_lt h
  exact digitsVal_inj (by rw [length_padZero hw hlt, hlen]) isDigit_of_mem_padZero h
    (digitsVal_padZero w _)

theorem utf8Size_of_isDigit {c : Char} (h : c.isDigit = true) : c.utf8Size = 1 := by
  simp only [Char.isDigit, Bool.and_eq_true, decide_eq_true_eq] at h
  rw [Char.utf8Size_eq_one_iff]
  exact UInt32.le_trans h.2 (by decide)

theorem digitsVal_of_isNumeral {l : List Char} {n : ℕ} (h : IsNumeral l n)
    (hd : ∀ c ∈ l, c.isDigit = true) : digitsVal l = n := by
  obtain ⟨ds, rfl | rfl, -, -, hn⟩ := h
  · exact hn
  · exact absurd (hd '+' (by simp)) (by decide)

end Rust.Str
