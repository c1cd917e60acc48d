import Unitpm.Lib.Run
import Unitpm.Lib.Serde
import Unitpm.Lib.Utf8

/-! # Indented JSON texts

The writer that puts every item and member on a line of its own, two spaces deeper than what
contains it (`pretty`), and what is left of a text of which only a beginning is there.

A reader of JSON accepts no text in which a string or a bracket is still open.  `Closed` says this
of bytes: a scan that knows whether it is inside a string, and how many brackets are open, ends as
it began.  `Passes` are the parts of a text that such a scan comes through; the text of an array or
an object is one bracketed part, so none of its proper beginnings is closed
(`not_closed_of_strict_prefix`).

`ByteReader` is the interface to a JSON library that reads such bytes, and `indented` is one. -/

namespace Json

open Run Utf8

/-! ### The writer -/

/-- A new line with its indentation. -/
def line (n : ℕ) : List Char := '\n' :: List.replicate (2 * n) ' '

/-- Items between brackets, each on its own line. -/
def block (n : ℕ) (opening closing : Char) : List (List Char) → List Char
  | [] => [opening, closing]
  | t :: ts => opening ::
      (line (n + 1) ++ t ++ (ts.flatMap fun t => ',' :: (line (n + 1) ++ t)) ++ line n ++ [closing])

mutual

/-- The indented text of a value that stands at depth `n`. -/
def pretty (n : ℕ) : Json → List Char
  | .null => write .null
  | .bool b => write (.bool b)
  | .num z => write (.num z)
  | .real t => write (.real t)
  | .str s => write (.str s)
  | .arr l => block n '[' ']' (prettyItems (n + 1) l)
  | .obj l => block n '\x7b' '\x7d' (prettyMembers (n + 1) l)

def prettyItems (n : ℕ) : List Json → List (List Char)
  | [] => []
  | j :: l => pretty n j :: prettyItems n l

def prettyMembers (n : ℕ) : List (String × Json) → List (List Char)
  | [] => []
  | (k, j) :: l => (writeStr k ++ ':' :: ' ' :: pretty n j) :: prettyMembers n l

end

/-- Items between brackets, on one line. -/
def inline (opening closing : Char) : List (List Char) → List Char
  | [] => [opening, closing]
  | t :: ts => opening :: (t ++ (ts.flatMap fun t => ',' :: t) ++ [closing])

theorem write_arr (l : List Json) : write (.arr l) = inline '[' ']' (l.map write) := by
  have hitems : ∀ l : List Json,
      writeItems l = (l.map write).flatMap (fun t => ',' :: t) ++ [']'] := by
    intro l
    induction l with
    | nil => rfl
    | cons j l ih => simp [writeItems, ih]
  cases l with
  | nil => rw [write]; rfl
  | cons j l => rw [write, hitems, List.map_cons, inline, List.append_assoc]

theorem write_obj (l : List (String × Json)) :
    write (.obj l) = inline '\x7b' '\x7d' (l.map fun p => writeStr p.1 ++ ':' :: write p.2) := by
  have hmembers : ∀ l : List (String × Json), writeMembers l =
      (l.map fun p => writeStr p.1 ++ ':' :: write p.2).flatMap (fun t => ',' :: t) ++
        ['\x7d'] := by
    intro l
    induction l with
    | nil => rfl
    | cons p l ih => simp [writeMembers, ih]
  cases l with
  | nil => rw [write]; rfl
  | cons p l => simp [write, hmembers, inline]

/-! ### The scan -/

/-- Where in a text a byte stands. -/
inductive Mode where
  | outside | inside | escaped
deriving DecidableEq

/-- A quote (34) begins and ends a string, where it is not behind a backslash (92). -/
def Mode.next : Mode → UInt8 → Mode
  | .outside, b => if b = 34 then .inside else .outside
  | .inside, b => if b = 34 then .outside else if b = 92 then .escaped else .inside
  | .escaped, _ => .inside

structure Scan where
  depth : ℕ
  mode : Mode
deriving DecidableEq

/-- The number of open brackets changes outside strings. -/
def Scan.next (s : Scan) (b : UInt8) : Scan where
  depth :=
    if s.mode ≠ .outside then s.depth
    -- the opening brackets, square and curly, and then the closing ones
    else if b = 91 ∨ b = 123 then s.depth + 1
    else if b = 93 ∨ b = 125 then s.depth - 1
    else s.depth
  mode := s.mode.next b

/-- Every string and every bracket of the text is closed. -/
def Closed (b : List UInt8) : Prop :=
  b ≠ [] ∧ b.foldl Scan.next ⟨0, .outside⟩ = ⟨0, .outside⟩

instance (b : List UInt8) : Decidable (Closed b) := inferInstanceAs (Decidable (_ ∧ _))

/-- White space between tokens. -/
def isSpace (b : UInt8) : Bool := b = 32 || b = 10 || b = 13 || b = 9

/-- The text without the white space between its tokens. -/
def squeeze : Mode → List UInt8 → List UInt8
  | _, [] => []
  | m, b :: l =>
      if m = .outside ∧ isSpace b = true then squeeze m l else b :: squeeze (m.next b) l

/-- The scan comes through `l` from mode `m` to mode `m'` with as many brackets open as before and
never fewer, and `l'` is what is left of `l` without white space. -/
structure Passes (m m' : Mode) (l l' : List UInt8) : Prop where
  stays : ∀ d, Along Scan.next (fun s b => d ≤ (s.next b).depth) ⟨d, m⟩ l
  ends : ∀ d, l.foldl Scan.next ⟨d, m⟩ = ⟨d, m'⟩
  squeezed : ∀ r, squeeze m (l ++ r) = l' ++ squeeze m' r

namespace Passes

variable {m m₁ m₂ : Mode} {l l' k k' : List UInt8} {b : UInt8}

theorem nil : Passes m m [] [] := ⟨fun _ => trivial, fun _ => rfl, fun _ => rfl⟩

theorem append (hl : Passes m m₁ l l') (hk : Passes m₁ m₂ k k') :
    Passes m m₂ (l ++ k) (l' ++ k') where
  stays d := by
    rw [along_append, hl.ends]
    exact ⟨hl.stays d, hk.stays d⟩
  ends d := by rw [List.foldl_append, hl.ends, hk.ends]
  squeezed r := by rw [List.append_assoc, hl.squeezed, hk.squeezed, List.append_assoc]

theorem flatMap {f : UInt8 → List UInt8} (h : ∀ b ∈ l, Passes m m [b] (f b)) :
    Passes m m l (l.flatMap f) := by
  induction l with
  | nil => exact nil
  | cons b l ih =>
      obtain ⟨hb, hl⟩ := List.forall_mem_cons.mp h
      exact hb.append (ih hl)

theorem all (h : ∀ b ∈ l, Passes m m [b] [b]) : Passes m m l l := by
  simpa using flatMap h

theorem next_eq (d : ℕ) (h : m = .outside → b ∉ [91, 123, 93, 125]) :
    Scan.next ⟨d, m⟩ b = ⟨d, m.next b⟩ := by
  unfold Scan.next
  by_cases hm : m = .outside
  · have hb := h hm
    simp only [List.mem_cons, List.not_mem_nil, or_false, not_or] at hb
    simp [hb]
  · simp [hm]

theorem of_next (hnext : ∀ d, Scan.next ⟨d, m⟩ b = ⟨d, m₁⟩)
    (hsqueeze : ∀ r, squeeze m (b :: r) = l' ++ squeeze m₁ r) : Passes m m₁ [b] l' where
  stays d := ⟨le_of_eq (congrArg Scan.depth (hnext d)).symm, trivial⟩
  ends := hnext
  squeezed := hsqueeze

theorem byte (h : m = .outside → b ∉ [91, 123, 93, 125] ∧ isSpace b = false) :
    Passes m (m.next b) [b] [b] := by
  apply of_next (fun d => next_eq d fun hm => (h hm).1)
  intro r
  rw [squeeze, if_neg]
  · rfl
  · rintro ⟨hm, hb⟩
    rw [(h hm).2] at hb
    cases hb

theorem space (h : isSpace b = true) : Passes .outside .outside [b] [] := by
  have hb : b ∉ [91, 123, 93, 125] ∧ b ≠ 34 := by
    simp only [isSpace, Bool.or_eq_true, decide_eq_true_eq] at h
    rcases h with ((rfl | rfl) | rfl) | rfl <;> decide
  refine of_next (fun d => ?_) fun r => if_pos ⟨rfl, h⟩
  rw [next_eq d fun _ => hb.1, Mode.next, if_neg hb.2]

end Passes

theorem opening_next {o : UInt8} (ho : o = 91 ∨ o = 123) (d : ℕ) :
    Scan.next ⟨d, .outside⟩ o = ⟨d + 1, .outside⟩ ∧
      ∀ r, squeeze .outside (o :: r) = o :: squeeze .outside r := by
  rcases ho with rfl | rfl <;> exact ⟨rfl, fun _ => rfl⟩

theorem closing_next {c : UInt8} (hc : c = 93 ∨ c = 125) (d : ℕ) :
    Scan.next ⟨d + 1, .outside⟩ c = ⟨d, .outside⟩ ∧
      ∀ r, squeeze .outside (c :: r) = c :: squeeze .outside r := by
  rcases hc with rfl | rfl <;> exact ⟨rfl, fun _ => rfl⟩

section Bracketed

variable {o c : UInt8} {l l' : List UInt8}

theorem Passes.bracketed (ho : o = 91 ∨ o = 123) (hc : c = 93 ∨ c = 125)
    (hl : Passes .outside .outside l l') :
    Passes .outside .outside (o :: (l ++ [c])) (o :: (l' ++ [c])) where
  stays d := by
    have hin : Along Scan.next (fun s b => d ≤ (s.next b).depth) ⟨d + 1, .outside⟩ l :=
      (hl.stays (d + 1)).mono fun s b h => by omega
    rw [Along, (opening_next ho d).1, along_append, hl.ends]
    refine ⟨Nat.le_succ d, hin, ?_, trivial⟩
    exact le_of_eq (congrArg Scan.depth (closing_next hc d).1).symm
  ends d := by
    rw [List.foldl_cons, (opening_next ho d).1, List.foldl_append, hl.ends]
    exact (closing_next hc d).1
  squeezed r := by
    rw [List.cons_append, (opening_next ho 0).2, List.append_assoc, hl.squeezed,
      List.singleton_append, (closing_next hc 0).2, List.cons_append, List.append_assoc]
    rfl

/-- Before the closing bracket, the opening one is open. -/
theorem not_closed_of_strict_prefix (ho : o = 91 ∨ o = 123)
    (hl : Passes .outside .outside l l') {p : List UInt8} (hp : p <+: o :: (l ++ [c]))
    (hne : p ≠ o :: (l ++ [c])) : ¬ Closed p := by
  rintro ⟨hnil, hend⟩
  obtain ⟨q, rfl, hq⟩ := (List.prefix_cons_iff.mp hp).resolve_left hnil
  have hql : q <+: l := by
    rcases List.prefix_concat_iff.mp hq with rfl | hq
    · exact absurd rfl hne
    · exact hq
  obtain ⟨r, rfl⟩ := hql
  have hstays := ((along_append _ q r).mp (hl.stays 1)).1
  have hdepth : 1 ≤ (q.foldl Scan.next ⟨1, .outside⟩).depth :=
    hstays.invariant (fun s : Scan => 1 ≤ s.depth) (fun _ _ _ h => h) le_rfl
  rw [List.foldl_cons, (opening_next ho 0).1] at hend
  rw [hend] at hdepth
  exact absurd hdepth (by decide)

end Bracketed

/-! ### Characters -/

theorem notMem_encodeChar {ch : Char} {l : List UInt8} (hl : ∀ b ∈ l, b.toNat < 128)
    (h : ch ∉ l.map fun b => Char.ofNat b.toNat) : ∀ b ∈ String.utf8EncodeChar ch, b ∉ l := by
  intro b hb hbl
  refine h (List.mem_map.mpr ⟨b, hbl, ?_⟩)
  rw [← toNat_of_mem_encodeChar hb (hl b hbl), Char.ofNat_toNat]

theorem passes_plain {t : List Char}
    (h : ∀ ch ∈ t, ch ∉ ['"', '[', '\x7b', ']', '\x7d', ' ', '\n', '\r', '\t']) :
    Passes .outside .outside (encode t) (encode t) := by
  refine .all fun b hb => ?_
  obtain ⟨ch, hch, hb⟩ := List.mem_flatMap.mp hb
  have hne : b ∉ [34, 91, 123, 93, 125, 32, 10, 13, 9] :=
    notMem_encodeChar (by simp) (h ch hch) b hb
  simp only [List.mem_cons, List.not_mem_nil, or_false, not_or] at hne
  have hbyte : Passes .outside (Mode.next .outside b) [b] [b] :=
    .byte fun _ => ⟨by simp [hne], by simp [isSpace, hne]⟩
  rwa [Mode.next, if_neg hne.1] at hbyte

theorem passes_inside {t : List Char} (h : ∀ ch ∈ t, ch ∉ ['"', '\\']) :
    Passes .inside .inside (encode t) (encode t) := by
  refine .all fun b hb => ?_
  obtain ⟨ch, hch, hb⟩ := List.mem_flatMap.mp hb
  have hne : b ∉ [34, 92] := notMem_encodeChar (by simp) (h ch hch) b hb
  simp only [List.mem_cons, List.not_mem_nil, or_false, not_or] at hne
  have hbyte : Passes .inside (Mode.next .inside b) [b] [b] := .byte nofun
  rwa [Mode.next, if_neg hne.1, if_neg hne.2] at hbyte

theorem passes_escape (b : UInt8) : Passes .inside .inside [92, b] [92, b] := by
  have h₁ : Passes .inside (Mode.next .inside 92) [92] [92] := .byte nofun
  have h₂ : Passes .escaped (Mode.next .escaped b) [b] [b] := .byte nofun
  exact h₁.append h₂

theorem passes_escChar (ch : Char) :
    Passes .inside .inside (encode (escChar ch)) (encode (escChar ch)) := by
  unfold escChar
  cases hs : shortEscapes.lookup ch with
  | some e =>
      have hb : ∀ p ∈ shortEscapes, encode ['\\', p.2] = [92, UInt8.ofNat p.2.toNat] := by decide
      simp only [hb _ (mem_of_lookup hs)]
      exact passes_escape _
  | none =>
      simp only
      split
      · rename_i hlt
        have hhex : ∀ n < 16, hexDigit n ∉ ['"', '\\'] := by decide
        have hu : encode ['\\', 'u'] = [92, 117] := by decide
        have htail := passes_inside (t := ['0', '0', hexDigit (ch.toNat / 16),
          hexDigit (ch.toNat % 16)]) (by
            simp only [List.forall_mem_cons]
            exact ⟨by decide, by decide, hhex _ (by omega), hhex _ (by omega), nofun⟩)
        have := (hu ▸ passes_escape 117).append htail
        rwa [← encode_append] at this
      · apply passes_inside
        intro c hc
        obtain rfl : c = ch := by simpa using hc
        simp only [List.mem_cons, List.not_mem_nil, or_false, not_or]
        constructor
        · rintro rfl
          exact absurd hs (by decide)
        · rintro rfl
          exact absurd hs (by decide)

theorem passes_writeStr (k : String) :
    Passes .outside .outside (encode (writeStr k)) (encode (writeStr k)) := by
  have hbody : ∀ t : List Char,
      Passes .inside .inside (encode (t.flatMap escChar)) (encode (t.flatMap escChar)) := by
    intro t
    induction t with
    | nil => exact .nil
    | cons ch t ih =>
        rw [List.flatMap_cons, encode_append]
        exact (passes_escChar ch).append ih
  have hopen : Passes .outside (Mode.next .outside 34) [34] [34] := .byte fun _ => by decide
  have hclose : Passes .inside (Mode.next .inside 34) [34] [34] := .byte nofun
  have hq : String.utf8EncodeChar '"' = [34] := by decide
  rw [writeStr, encode_cons, encode_append, encode_cons, hq]
  exact hopen.append ((hbody k.toList).append hclose)

/-! ### Values -/

theorem passes_writeNum (z : ℤ) :
    Passes .outside .outside (encode (writeNum z)) (encode (writeNum z)) := by
  have hdigit : ∀ ch : Char, ch.isDigit = true →
      ch ∉ ['"', '[', '\x7b', ']', '\x7d', ' ', '\n', '\r', '\t'] := by
    intro ch hch hmem
    simp only [List.mem_cons, List.not_mem_nil, or_false] at hmem
    rcases hmem with rfl | rfl | rfl | rfl | rfl | rfl | rfl | rfl | rfl <;>
      exact absurd hch (by decide)
  have hdigits : ∀ ch ∈ Nat.toDigits 10 z.natAbs,
      ch ∉ ['"', '[', '\x7b', ']', '\x7d', ' ', '\n', '\r', '\t'] := fun ch hch =>
    hdigit ch (Nat.isDigit_of_mem_toDigits (by decide) (by decide) hch)
  apply passes_plain
  unfold writeNum
  split
  · exact List.forall_mem_cons.mpr ⟨by decide, hdigits⟩
  · exact hdigits

theorem passes_line (n : ℕ) : Passes .outside .outside (encode (line n)) [] := by
  have hspace : ∀ b ∈ encode (line n), Passes .outside .outside [b] [] := by
    intro b hb
    obtain ⟨ch, hch, hb⟩ := List.mem_flatMap.mp hb
    rw [line, List.mem_cons, List.mem_replicate] at hch
    rcases hch with rfl | ⟨-, rfl⟩
    · obtain rfl : b = 10 := by simpa [lineFeed] using hb
      exact .space rfl
    · have he : String.utf8EncodeChar ' ' = [32] := by decide
      obtain rfl : b = 32 := by simpa [he] using hb
      exact .space rfl
  have h := Passes.flatMap hspace
  rwa [List.flatMap_eq_nil_iff.mpr fun _ _ => rfl] at h

section Block

variable {o c : Char} {ts us : List (List Char)}

theorem passes_rest (n : ℕ)
    (h : List.Forall₂ (fun t u => Passes .outside .outside (encode t) (encode u)) ts us) :
    Passes .outside .outside (encode (ts.flatMap fun t => ',' :: (line n ++ t)))
      (encode (us.flatMap fun t => ',' :: t)) := by
  induction h with
  | nil => exact .nil
  | @cons t u ts us ht _ ih =>
      have hcomma := passes_plain (t := [',']) (by simp)
      have := (hcomma.append ((passes_line n).append ht)).append ih
      simpa [encode] using this

theorem block_parts (n : ℕ)
    (h : List.Forall₂ (fun t u => Passes .outside .outside (encode t) (encode u)) ts us) :
    ∃ l l', Passes .outside .outside l l' ∧
      encode (block n o c ts) = encode [o] ++ (l ++ encode [c]) ∧
      encode (inline o c us) = encode [o] ++ (l' ++ encode [c]) := by
  cases h with
  | nil => exact ⟨[], [], .nil, by simp [block], by simp [inline]⟩
  | @cons t u ts us ht hts =>
      refine ⟨_, _, (((passes_line (n + 1)).append ht).append (passes_rest (n + 1) hts)).append
        (passes_line n), ?_, ?_⟩
      · simp [block]
      · simp [inline]

end Block

theorem prettyItems_eq (n : ℕ) (l : List Json) : prettyItems n l = l.map (pretty n) := by
  induction l with
  | nil => rfl
  | cons j l ih => rw [prettyItems, ih, List.map_cons]

theorem prettyMembers_eq (n : ℕ) (l : List (String × Json)) :
    prettyMembers n l = l.map fun p => writeStr p.1 ++ ':' :: ' ' :: pretty n p.2 := by
  induction l with
  | nil => rfl
  | cons p l ih => rw [prettyMembers, ih, List.map_cons]

theorem pretty_arr (n : ℕ) (l : List Json) :
    pretty n (.arr l) = block n '[' ']' (l.map (pretty (n + 1))) := by
  rw [pretty, prettyItems_eq]

theorem pretty_obj (n : ℕ) (l : List (String × Json)) :
    pretty n (.obj l) = block n '\x7b' '\x7d'
      (l.map fun p => writeStr p.1 ++ ':' :: ' ' :: pretty (n + 1) p.2) := by
  rw [pretty, prettyMembers_eq]

theorem arr_parts {l : List Json} (n : ℕ)
    (h : ∀ j ∈ l, ∀ n, Passes .outside .outside (encode (pretty n j)) (encode (write j))) :
    ∃ q q', Passes .outside .outside q q' ∧ encode (pretty n (.arr l)) = 91 :: (q ++ [93]) ∧
      encode (write (.arr l)) = 91 :: (q' ++ [93]) := by
  rw [pretty_arr, write_arr]
  refine block_parts n (List.forall₂_map_left_iff.mpr (List.forall₂_map_right_iff.mpr ?_))
  exact List.forall₂_same.mpr fun j hj => h j hj (n + 1)

theorem obj_parts {l : List (String × Json)} (n : ℕ)
    (h : ∀ p ∈ l, ∀ n, Passes .outside .outside (encode (pretty n p.2)) (encode (write p.2))) :
    ∃ q q', Passes .outside .outside q q' ∧ encode (pretty n (.obj l)) = 123 :: (q ++ [125]) ∧
      encode (write (.obj l)) = 123 :: (q' ++ [125]) := by
  rw [pretty_obj, write_obj]
  refine block_parts n (List.forall₂_map_left_iff.mpr (List.forall₂_map_right_iff.mpr ?_))
  apply List.forall₂_same.mpr
  intro p hp
  have hcolon : Passes .outside .outside (encode [':']) (encode [':']) :=
    passes_plain (by simp)
  have hspace : Passes .outside .outside (encode [' ']) [] := .space rfl
  have := (passes_writeStr p.1).append (hcolon.append (hspace.append (h p hp (n + 1))))
  simpa using this

/-- The scan comes through the text of a value, and its text on one line is what is left. -/
theorem passes_pretty {j : Json} (hj : Exact j) (n : ℕ) :
    Passes .outside .outside (encode (pretty n j)) (encode (write j)) := by
  induction hj generalizing n with
  | null =>
      rw [pretty, write]
      exact passes_plain (by simp)
  | bool b =>
      rw [pretty]
      cases b with
      | true =>
          rw [write]
          exact passes_plain (by simp)
      | false =>
          rw [write]
          exact passes_plain (by simp)
  | num z =>
      rw [pretty, write]
      exact passes_writeNum z
  | str s =>
      rw [pretty, write]
      exact passes_writeStr s
  | arr l _ ih =>
      obtain ⟨q, q', hq, hpretty, hwrite⟩ := arr_parts n ih
      rw [hpretty, hwrite]
      exact hq.bracketed (.inl rfl) (.inl rfl)
  | obj l _ ih =>
      obtain ⟨q, q', hq, hpretty, hwrite⟩ := obj_parts n ih
      rw [hpretty, hwrite]
      exact hq.bracketed (.inr rfl) (.inr rfl)

/-- **Beginnings.**  No proper beginning of the text of an object is closed. -/
theorem not_closed_of_prefix_pretty {l : List (String × Json)} (hl : Exact (.obj l)) {n : ℕ}
    {p : List UInt8} (hp : p <+: encode (pretty n (.obj l)))
    (hne : p ≠ encode (pretty n (.obj l))) : ¬ Closed p := by
  cases hl with
  | obj _ hl =>
      obtain ⟨q, q', hq, hpretty, -⟩ := obj_parts n fun p hp => passes_pretty (hl p hp)
      rw [hpretty] at hp hne
      exact not_closed_of_strict_prefix (.inr rfl) hq hp hne

/-! ### Readers -/

/-- Every number is an `i64` or a `u64`, and at most `n` arrays and objects are nested. -/
inductive Within : ℕ → Json → Prop
  | null (n : ℕ) : Within n .null
  | bool (n : ℕ) (b : Bool) : Within n (.bool b)
  | num (n : ℕ) (z : ℤ) : -2 ^ 63 ≤ z → z < 2 ^ 64 → Within n (.num z)
  | str (n : ℕ) (s : String) : Within n (.str s)
  | arr (n : ℕ) (l : List Json) : (∀ j ∈ l, Within n j) → Within (n + 1) (.arr l)
  | obj (n : ℕ) (l : List (String × Json)) : (∀ p ∈ l, Within n p.2) → Within (n + 1) (.obj l)

theorem Within.exact {n : ℕ} {j : Json} (h : Within n j) : Exact j := by
  induction h with
  | null n => exact .null
  | bool n b => exact .bool b
  | num n z h₁ h₂ => exact .num z h₁ h₂
  | str n s => exact .str s
  | arr n l _ ih => exact .arr l ih
  | obj n l _ ih => exact .obj l ih

/-- A JSON library as it reads bytes: values that are nested no deeper than its limit are read back
from their indented text, and nothing is accepted in which a string or a bracket is open. -/
structure ByteReader where
  parse : List UInt8 → Option Json
  parse_pretty : ∀ j, Within 127 j → parse (encode (pretty 0 j)) = some j
  closed_of_parse : ∀ b j, parse b = some j → Closed b

/-- The text without white space, read by the reader of such texts. -/
def parseIndented (b : List UInt8) : Option Json :=
  if Closed b then (decode (squeeze .outside b)).bind fun l => fromText (String.ofList l) else none

theorem closed_pretty {j : Json} (hj : Exact j) (n : ℕ) : Closed (encode (pretty n j)) := by
  have hp := passes_pretty hj n
  refine ⟨fun hnil => ?_, hp.ends 0⟩
  have hw := hp.squeezed []
  rw [hnil, List.append_nil] at hw
  obtain ⟨ch, t, hch, -⟩ := write_ne_bracket hj
  rw [hch] at hw
  simp [squeeze, String.utf8EncodeChar_ne_nil] at hw

theorem parseIndented_pretty {j : Json} (hj : Exact j) (n : ℕ) :
    parseIndented (encode (pretty n j)) = some j := by
  have hs := (passes_pretty hj n).squeezed []
  rw [List.append_nil, squeeze, List.append_nil] at hs
  rw [parseIndented, if_pos (closed_pretty hj n), hs, decode_encode]
  exact fromText_write hj

def indented : ByteReader where
  parse := parseIndented
  parse_pretty _ hj := parseIndented_pretty hj.exact 0
  closed_of_parse b j h := by
    unfold parseIndented at h
    split_ifs at h with hb
    exact hb

/-- A JSON library as it writes bytes without white space: values that are nested no deeper than its
limit are read back. -/
structure ByteCodec where
  toVec : Json → List UInt8
  fromSlice : List UInt8 → Option Json
  fromSlice_toVec : ∀ j, Within 127 j → fromSlice (toVec j) = some j

def compactBytes : ByteCodec where
  toVec j := encode (write j)
  fromSlice b := (decode b).bind fun l => fromText (String.ofList l)
  fromSlice_toVec j hj := by
    rw [decode_encode]
    exact fromText_write hj.exact

end Json

namespace Serde

/-! ### How deep structs are nested -/

variable {σ α β : Type} {n : ℕ}

/-- What is written for a value is nested at most `n` deep. -/
def Shape.Within (c : Shape α) (n : ℕ) : Prop := ∀ a, c.Valid a → Json.Within n (c.encode a)

def Record.Within (R : Record σ α) (n : ℕ) : Prop :=
  ∀ fd ∈ R.fields, ∀ s j, fd.Valid s → fd.entry s = some j → Json.Within n j

theorem within_string : string.Within n := fun s _ => .str n s

theorem within_bool : bool.Within n := fun b _ => .bool n b

theorem within_i32 : i32.Within n := by
  rintro z ⟨h₁, h₂⟩
  exact .num n z (by omega) (by omega)

theorem within_i64 : i64.Within n := by
  rintro z ⟨h₁, h₂⟩
  exact .num n z (by omega) (by omega)

theorem within_vec {c : Shape α} (h : c.Within n) : (vec c).Within (n + 1) := by
  intro l hl
  refine .arr n _ fun j hj => ?_
  obtain ⟨a, ha, rfl⟩ := List.mem_map.mp hj
  exact h a (hl a ha)

namespace Record.Within

variable {name : String}

theorem nil (mk : α) : (Record.nil mk : Record σ α).Within n := fun _ hfd => absurd hfd (by
  simp [Record.nil])

theorem of_fields {R : Record σ α} {R' : Record σ β} (hR : R.Within n) (fd : Field σ)
    (hfields : R'.fields = R.fields ++ [fd])
    (h : ∀ s j, fd.Valid s → fd.entry s = some j → Json.Within n j) : R'.Within n := by
  intro fd' hfd'
  rw [hfields, List.mem_append, List.mem_singleton] at hfd'
  rcases hfd' with hfd' | rfl
  · exact hR fd' hfd'
  · exact h

theorem required {R : Record σ (α → β)} (hR : R.Within n) {get : σ → α} {c : Shape α}
    (hc : c.Within n) : (R.required name get c).Within n := by
  apply hR.of_fields (.required name get c) rfl
  intro s j hs hj
  obtain rfl := Option.some.inj hj
  exact hc _ hs

theorem optional {R : Record σ (Option α → β)} (hR : R.Within n) {get : σ → Option α}
    {c : Shape α} (hc : c.Within n) : (R.optional name get c).Within n := by
  apply hR.of_fields (.optional name get c) rfl
  intro s j hs hj
  obtain ⟨a, ha, rfl⟩ := Option.map_eq_some_iff.mp hj
  exact hc a (hs a ha)

theorem flag {R : Record σ (Bool → β)} (hR : R.Within n) {get : σ → Bool} :
    (R.flag name get).Within n := by
  apply hR.of_fields (.flag name get) rfl
  intro s j _ hj
  obtain ⟨-, rfl⟩ : get s = true ∧ Json.bool true = j := by
    simpa [Field.flag] using hj
  exact .bool n true

theorem shape {R : Record σ σ} (hR : R.Within n) {hvalue : ∀ s, R.value s = s}
    {hnames : R.names.Nodup} : (R.shape hvalue hnames).Within (n + 1) := by
  intro s hs
  refine .obj n _ fun p hp => ?_
  obtain ⟨fd, hfd, hentry, -⟩ := Record.mem_members.mp hp
  exact hR fd hfd s p.2 (hs fd hfd) hentry

end Record.Within

end Serde
