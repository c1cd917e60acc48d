import Mathlib.Data.List.Basic
import Mathlib.Data.Nat.Digits.Defs
import Mathlib.Tactic.Common

/-! # JSON texts

The syntax tree of a JSON text (members of an object in order, repeats allowed; a number that
is not a machine integer as it is written), the interface a program has to a JSON library
(`Codec`), and one library that satisfies it (`compact`): a writer without white space and a
recursive-descent reader of what it writes.

`Codec.fromText_toText` is the only thing a user of a codec relies on.  It is required of the
values whose numbers are integers of the 64-bit machine types (`Exact`), which a JSON library
keeps exactly. -/

inductive Json where
  | null
  | bool (b : Bool)
  | num (n : ℤ)
  | real (text : String)
  | str (s : String)
  | arr (l : List Json)
  | obj (l : List (String × Json))

namespace Json

/-- Every number is an `i64` or a `u64`. -/
inductive Exact : Json → Prop
  | null : Exact .null
  | bool (b : Bool) : Exact (.bool b)
  | num (n : ℤ) : -2 ^ 63 ≤ n → n < 2 ^ 64 → Exact (.num n)
  | str (s : String) : Exact (.str s)
  | arr (l : List Json) : (∀ j ∈ l, Exact j) → Exact (.arr l)
  | obj (l : List (String × Json)) : (∀ p ∈ l, Exact p.2) → Exact (.obj l)

/-- A JSON library. -/
structure Codec where
  toText : Json → String
  fromText : String → Option Json
  fromText_toText : ∀ j, Exact j → fromText (toText j) = some j

/-! ### Strings -/

def hexDigit (n : ℕ) : Char := "0123456789abcdef".toList.getD n '0'

def ofHex (c : Char) : Option ℕ :=
  let i := "0123456789abcdef".toList.idxOf c
  if i < 16 then some i else none

/-- The two-character escapes, by the character they stand for. -/
def shortEscapes : List (Char × Char) :=
  [('"', '"'), ('\\', '\\'), ('\n', 'n'), ('\r', 'r'), ('\t', 't'), ('\x08', 'b'), ('\x0c', 'f')]

/-- One character inside a string literal. -/
def escChar (c : Char) : List Char :=
  match shortEscapes.lookup c with
  | some e => ['\\', e]
  | none =>
      if c.toNat < 32 then
        ['\\', 'u', '0', '0', hexDigit (c.toNat / 16), hexDigit (c.toNat % 16)]
      else [c]

/-- Reads up to the closing quote. -/
def readStr : List Char → Option (List Char × List Char)
  | '"' :: l => some ([], l)
  | '\\' :: 'u' :: a :: b :: c :: d :: l =>
      match ofHex a, ofHex b, ofHex c, ofHex d with
      | some a, some b, some c, some d =>
          (readStr l).map fun p => (Char.ofNat (((a * 16 + b) * 16 + c) * 16 + d) :: p.1, p.2)
      | _, _, _, _ => none
  | '\\' :: e :: l =>
      match shortEscapes.find? (fun p => p.2 == e) with
      | some p => (readStr l).map fun q => (p.1 :: q.1, q.2)
      | none => none
  | c :: l => (readStr l).map fun p => (c :: p.1, p.2)
  | [] => none

theorem ofHex_hexDigit : ∀ n < 16, ofHex (hexDigit n) = some n := by decide

theorem readStr_short : ∀ p ∈ shortEscapes, ∀ l : List Char,
    readStr ('\\' :: p.2 :: l) = (readStr l).map fun q => (p.1 :: q.1, q.2) := by
  intro p hp l
  simp only [shortEscapes, List.mem_cons, List.not_mem_nil, or_false] at hp
  rcases hp with rfl | rfl | rfl | rfl | rfl | rfl | rfl <;>
    simp [readStr, shortEscapes]

theorem mem_of_lookup {c e : Char} : ∀ {l : List (Char × Char)}, l.lookup c = some e → (c, e) ∈ l
  | [], h => by cases h
  | (a, b) :: l, h => by
      rw [List.lookup_cons] at h
      split at h
      · rename_i hc
        obtain rfl : b = e := Option.some.inj h
        obtain rfl : c = a := by simpa using hc
        exact List.mem_cons_self
      · exact List.mem_cons_of_mem _ (mem_of_lookup h)

theorem readStr_plain {c : Char} (hq : c ≠ '"') (hb : c ≠ '\\') (l : List Char) :
    readStr (c :: l) = (readStr l).map fun p => (c :: p.1, p.2) := by
  rw [readStr.eq_def]
  split <;> simp_all

theorem readStr_escChar (c : Char) (l : List Char) :
    readStr (escChar c ++ l) = (readStr l).map fun p => (c :: p.1, p.2) := by
  unfold escChar
  cases hs : shortEscapes.lookup c with
  | some e => exact readStr_short _ (mem_of_lookup hs) l
  | none =>
      simp only
      split
      · rename_i hc
        have h1 := ofHex_hexDigit (c.toNat / 16) (by omega)
        have h2 := ofHex_hexDigit (c.toNat % 16) (by omega)
        have h0 : ofHex '0' = some 0 := by decide
        have e : ((0 * 16 + 0) * 16 + c.toNat / 16) * 16 + c.toNat % 16 = c.toNat := by omega
        simp only [List.cons_append, List.nil_append, readStr, h0, h1, h2, e, Char.ofNat_toNat]
      · have hq : c ≠ '"' := by rintro rfl; exact absurd hs (by decide)
        have hb : c ≠ '\\' := by rintro rfl; exact absurd hs (by decide)
        exact readStr_plain hq hb l

theorem readStr_esc (s : List Char) (l : List Char) :
    readStr (s.flatMap escChar ++ '"' :: l) = some (s, l) := by
  induction s with
  | nil => simp [readStr]
  | cons c s ih => rw [List.flatMap_cons, List.append_assoc, readStr_escChar, ih]; rfl

/-! ### Numbers -/

def writeNum (n : ℤ) : List Char :=
  if n < 0 then '-' :: Nat.toDigits 10 n.natAbs else Nat.toDigits 10 n.natAbs

/-- Reads the longest run of digits. -/
def readNat (l : List Char) : ℕ × List Char :=
  (Nat.ofDigitChars 10 (l.takeWhile Char.isDigit) 0, l.dropWhile Char.isDigit)

/-- A digit comes next. -/
def digitHead (l : List Char) : Bool := l.head?.any Char.isDigit

theorem readNat_toDigits (n : ℕ) {l : List Char} (hl : digitHead l = false) :
    readNat (Nat.toDigits 10 n ++ l) = (n, l) := by
  have hd : ∀ c ∈ Nat.toDigits 10 n, c.isDigit = true :=
    fun c hc => Nat.isDigit_of_mem_toDigits (by decide) (by decide) hc
  have hl' : l.takeWhile Char.isDigit = [] ∧ l.dropWhile Char.isDigit = l := by
    cases l with
    | nil => exact ⟨rfl, rfl⟩
    | cons c l =>
        have hc : c.isDigit = false := by simpa [digitHead] using hl
        simp [List.takeWhile, List.dropWhile, hc]
  rw [readNat, List.takeWhile_append_of_pos hd, List.dropWhile_append_of_pos hd, hl'.1, hl'.2,
    List.append_nil, Nat.ofDigitChars_ten_toDigits]

theorem digitHead_toDigits (n : ℕ) (l : List Char) : digitHead (Nat.toDigits 10 n ++ l) = true := by
  obtain ⟨c, ds, hc⟩ := List.exists_cons_of_ne_nil (Nat.toDigits_ne_nil (n := n) (b := 10))
  have hd : c.isDigit = true :=
    Nat.isDigit_of_mem_toDigits (by decide) (by decide) (hc ▸ List.mem_cons_self)
  simp [digitHead, hc, hd]

/-! ### Texts -/

/-- A member name or a string value. -/
def writeStr (s : String) : List Char := '"' :: (s.toList.flatMap escChar ++ ['"'])

mutual

/-- The text of a value. -/
def write : Json → List Char
  | .null => "null".toList
  | .bool true => "true".toList
  | .bool false => "false".toList
  | .num n => writeNum n
  | .real t => t.toList
  | .str s => writeStr s
  | .arr [] => ['[', ']']
  | .arr (j :: l) => '[' :: (write j ++ writeItems l)
  | .obj [] => ['\x7b', '\x7d']
  | .obj ((k, j) :: l) => '\x7b' :: (writeStr k ++ ':' :: (write j ++ writeMembers l))

/-- What follows an item of an array. -/
def writeItems : List Json → List Char
  | [] => [']']
  | j :: l => ',' :: (write j ++ writeItems l)

/-- What follows a member of an object. -/
def writeMembers : List (String × Json) → List Char
  | [] => ['\x7d']
  | (k, j) :: l => ',' :: (writeStr k ++ ':' :: (write j ++ writeMembers l))

end

/-- A string, opening quote included. -/
def readQuoted : List Char → Option (String × List Char)
  | '"' :: l => (readStr l).map fun p => (String.ofList p.1, p.2)
  | _ => none

mutual

/-- Reads one value; a nested value has one unit of fuel less. -/
def read : ℕ → List Char → Option (Json × List Char)
  | 0, _ => none
  | n + 1, l =>
      if digitHead l then let r := readNat l; some (.num r.1, r.2)
      else match l with
        | '-' :: l => let r := readNat l; some (.num (-r.1), r.2)
        | 'n' :: 'u' :: 'l' :: 'l' :: l => some (.null, l)
        | 't' :: 'r' :: 'u' :: 'e' :: l => some (.bool true, l)
        | 'f' :: 'a' :: 'l' :: 's' :: 'e' :: l => some (.bool false, l)
        | '"' :: l => (readStr l).map fun p => (.str (String.ofList p.1), p.2)
        | '[' :: ']' :: l => some (.arr [], l)
        | '[' :: l => do
            let (j, l) ← read n l
            let (js, l) ← readItems n l
            some (.arr (j :: js), l)
        | '\x7b' :: '\x7d' :: l => some (.obj [], l)
        | '\x7b' :: l => do
            let (p, l) ← readMember n l
            let (ps, l) ← readMembers n l
            some (.obj (p :: ps), l)
        | _ => none

/-- The rest of an array after an item. -/
def readItems : ℕ → List Char → Option (List Json × List Char)
  | 0, _ => none
  | n + 1, l =>
      match l with
      | ']' :: l => some ([], l)
      | ',' :: l => do
          let (j, l) ← read n l
          let (js, l) ← readItems n l
          some (j :: js, l)
      | _ => none

/-- A member of an object. -/
def readMember : ℕ → List Char → Option ((String × Json) × List Char)
  | 0, _ => none
  | n + 1, l => do
      let (k, l) ← readQuoted l
      match l with
      | ':' :: l =>
          let (j, l) ← read n l
          some ((k, j), l)
      | _ => none

/-- The rest of an object after a member. -/
def readMembers : ℕ → List Char → Option (List (String × Json) × List Char)
  | 0, _ => none
  | n + 1, l =>
      match l with
      | '\x7d' :: l => some ([], l)
      | ',' :: l => do
          let (p, l) ← readMember n l
          let (ps, l) ← readMembers n l
          some (p :: ps, l)
      | _ => none

end

/-! ### Round trip -/

theorem readQuoted_writeStr (k : String) (l : List Char) :
    readQuoted (writeStr k ++ l) = some (k, l) := by
  simp [writeStr, readQuoted, readStr_esc]

theorem writeNum_ne_bracket (n : ℤ) : ∃ c t, writeNum n = c :: t ∧ c ≠ ']' := by
  unfold writeNum
  split
  · exact ⟨'-', _, rfl, by decide⟩
  · obtain ⟨c, t, hc⟩ := List.exists_cons_of_ne_nil (Nat.toDigits_ne_nil (n := n.natAbs) (b := 10))
    refine ⟨c, t, hc, ?_⟩
    rintro rfl
    have hd : Char.isDigit ']' = true :=
      Nat.isDigit_of_mem_toDigits (by decide) (by decide) (hc ▸ List.mem_cons_self)
    exact absurd hd (by decide)

/-- No value begins like the end of an array. -/
theorem write_ne_bracket {j : Json} (hj : Exact j) : ∃ c t, write j = c :: t ∧ c ≠ ']' := by
  cases hj with
  | null =>
      rw [write]
      exact ⟨'n', ['u', 'l', 'l'], by decide, by decide⟩
  | bool b =>
      cases b with
      | true =>
          rw [write]
          exact ⟨'t', ['r', 'u', 'e'], by decide, by decide⟩
      | false =>
          rw [write]
          exact ⟨'f', ['a', 'l', 's', 'e'], by decide, by decide⟩
  | num n =>
      rw [write]
      exact writeNum_ne_bracket n
  | str s =>
      rw [write]
      exact ⟨'"', _, rfl, by decide⟩
  | arr l =>
      cases l with
      | nil =>
          rw [write]
          exact ⟨'[', _, rfl, by decide⟩
      | cons j l =>
          rw [write]
          exact ⟨'[', _, rfl, by decide⟩
  | obj l =>
      rcases l with _ | ⟨⟨k, j⟩, l⟩
      · rw [write]
        exact ⟨'\x7b', _, rfl, by decide⟩
      · rw [write]
        exact ⟨'\x7b', _, rfl, by decide⟩

theorem digitHead_writeItems (js : List Json) (l : List Char) :
    digitHead (writeItems js ++ l) = false := by
  cases js <;> simp [writeItems, digitHead, Char.isDigit]

theorem digitHead_writeMembers (ps : List (String × Json)) (l : List Char) :
    digitHead (writeMembers ps ++ l) = false := by
  rcases ps with _ | ⟨⟨k, j⟩, ps⟩ <;> simp [writeMembers, digitHead, Char.isDigit]

/-- What the readers do with `n` units of fuel: a text of at most that length is read back. -/
structure Reads (n : ℕ) : Prop where
  value : ∀ j l, Exact j → digitHead l = false → (write j).length ≤ n →
    read n (write j ++ l) = some (j, l)
  items : ∀ js l, (∀ j ∈ js, Exact j) → (writeItems js).length ≤ n →
    readItems n (writeItems js ++ l) = some (js, l)
  member : ∀ k j l, Exact j → digitHead l = false → (writeStr k).length + (write j).length < n →
    readMember n (writeStr k ++ ':' :: (write j ++ l)) = some ((k, j), l)
  members : ∀ ps l, (∀ p ∈ ps, Exact p.2) → (writeMembers ps).length ≤ n →
    readMembers n (writeMembers ps ++ l) = some (ps, l)

theorem read_num {n : ℕ} (z : ℤ) {l : List Char} (hl : digitHead l = false) :
    read (n + 1) (writeNum z ++ l) = some (.num z, l) := by
  unfold writeNum
  split
  · rename_i hz
    have hd : digitHead ('-' :: (Nat.toDigits 10 z.natAbs ++ l)) = false := by
      simp [digitHead, Char.isDigit]
    rw [List.cons_append, read, hd]
    simp only [Bool.false_eq_true, if_false, readNat_toDigits _ hl]
    have : -(z.natAbs : ℤ) = z := by omega
    rw [this]
  · rename_i hz
    rw [read.eq_def]
    simp only [digitHead_toDigits, if_true, readNat_toDigits _ hl]
    have : (z.natAbs : ℤ) = z := by omega
    rw [this]

theorem reads_succ {n : ℕ} (ih : Reads n) : Reads (n + 1) where
  value := by
    intro j l hj hl hn
    rcases hj with _ | (_ | _) | ⟨z, -, -⟩ | s | ⟨_ | ⟨j, js⟩, hj⟩ | ⟨_ | ⟨⟨k, j⟩, ps⟩, hj⟩
    · simp [write, read, digitHead, Char.isDigit]
    · simp [write, read, digitHead, Char.isDigit]
    · simp [write, read, digitHead, Char.isDigit]
    · exact read_num z hl
    · simp [write, writeStr, read, digitHead, Char.isDigit, readStr_esc]
    · simp [write, read, digitHead, Char.isDigit]
    · obtain ⟨hj₁, hj₂⟩ := List.forall_mem_cons.mp hj
      obtain ⟨c, t, hc, hb⟩ := write_ne_bracket hj₁
      simp only [write, List.length_cons, List.length_append] at hn
      have h1 := ih.value j (writeItems js ++ l) hj₁ (digitHead_writeItems js l) (by omega)
      have h2 := ih.items js l hj₂ (by omega)
      rw [write, List.cons_append, List.append_assoc, read.eq_def]
      rw [hc, List.cons_append] at h1 ⊢
      simp [digitHead, Char.isDigit, hb, h1, h2]
    · simp [write, read, digitHead, Char.isDigit]
    · obtain ⟨hj₁, hj₂⟩ := List.forall_mem_cons.mp hj
      simp only [write, List.length_cons, List.length_append] at hn
      have h1 := ih.member k j (writeMembers ps ++ l) hj₁ (digitHead_writeMembers ps l) (by omega)
      have h2 := ih.members ps l hj₂ (by omega)
      simp only [write, writeStr, List.cons_append, List.append_assoc, List.nil_append] at h1 ⊢
      rw [read.eq_def]
      simp [digitHead, Char.isDigit, h1, h2]
  items := by
    intro js l hj hn
    cases js with
    | nil => simp [writeItems, readItems]
    | cons j js =>
        obtain ⟨hj₁, hj₂⟩ := List.forall_mem_cons.mp hj
        simp only [writeItems, List.length_cons, List.length_append] at hn
        have h1 := ih.value j (writeItems js ++ l) hj₁ (digitHead_writeItems js l) (by omega)
        have h2 := ih.items js l hj₂ (by omega)
        simp [writeItems, readItems, h1, h2]
  member := by
    intro k j l hj hl hn
    have h1 := ih.value j l hj hl (by simp only [writeStr, List.length_cons] at hn; omega)
    rw [readMember, readQuoted_writeStr]
    simp [h1]
  members := by
    intro ps l hj hn
    rcases ps with _ | ⟨⟨k, j⟩, ps⟩
    · simp [writeMembers, readMembers]
    · obtain ⟨hj₁, hj₂⟩ := List.forall_mem_cons.mp hj
      simp only [writeMembers, List.length_cons, List.length_append] at hn
      have h1 := ih.member k j (writeMembers ps ++ l) hj₁ (digitHead_writeMembers ps l) (by omega)
      have h2 := ih.members ps l hj₂ (by omega)
      simp [writeMembers, readMembers, h1, h2]

theorem reads_zero : Reads 0 where
  value := by
    intro j l hj _ hn
    obtain ⟨c, t, hc, -⟩ := write_ne_bracket hj
    simp [hc] at hn
  items := by
    intro js l _ hn
    cases js <;> simp [writeItems] at hn
  member := by
    intro k j l _ _ hn
    omega
  members := by
    intro ps l _ hn
    rcases ps with _ | ⟨⟨k, j⟩, ps⟩ <;> simp [writeMembers] at hn

theorem reads (n : ℕ) : Reads n := by
  induction n with
  | zero => exact reads_zero
  | succ n ih => exact reads_succ ih

/-- The whole text is one value. -/
def fromText (s : String) : Option Json :=
  match read s.toList.length s.toList with
  | some (j, []) => some j
  | _ => none

/-- **Round trip**: the writer's text is read back. -/
theorem fromText_write {j : Json} (hj : Exact j) :
    fromText (String.ofList (write j)) = some j := by
  have h := (reads (write j).length).value j [] hj rfl le_rfl
  rw [List.append_nil] at h
  simp [fromText, h]

/-- A JSON library: writer without white space, reader of what it writes. -/
def compact : Codec where
  toText j := String.ofList (write j)
  fromText := fromText
  fromText_toText _ hj := fromText_write hj

end Json
