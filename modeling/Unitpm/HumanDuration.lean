import Unitpm.Lib.Str
import Unitpm.Lib.Utf8

/-! # Durations for `--since`

`parse_human_duration` of `cli::commands::logs::args` reads components such as `1h30m` from the
front, a number and a unit at a time.  The units `ns` and `us` are named in its comment and in its
cases, but of them only the first letter is taken.

The numbers are `f64`; what the function uses of them is a parameter (`FloatOps`).
`parseHumanDuration_sum_iff`: a sequence of components gives its sum if and only if no component is
in `ns` or `us`. -/

namespace Unitpm.Logs

open Rust.Str

/-! ### The parser -/

/-- The operations on `f64`: `from_str`, and the product with a number as an `u128`. -/
structure FloatOps where
  F64 : Type
  parse : List Char → Option F64
  timesAsU128 : F64 → ℕ → ℕ

/-- The errors of `parse_human_duration`. -/
inductive DurationError where
  | missingNumber (position : ℕ)
  | invalidNumber (num : List Char)
  | missingUnit
  | unknownUnit (byte : UInt8)
  | overflow
  | empty
deriving DecidableEq

/-- The text of an error. -/
def DurationError.message : DurationError → String
  | .missingNumber position => "missing number at position " ++ toString position
  | .invalidNumber num =>
      "invalid number " ++ debug (String.ofList num) ++ ": invalid float literal"
  | .missingUnit => "missing unit suffix"
  | .unknownUnit byte => "unknown unit " ++ toString byte.toNat
  | .overflow => "overflow"
  | .empty => "empty duration"

/-- A character of a number. -/
def isNumberChar (c : Char) : Bool := c.isDigit || c = '.'

/-- The nanoseconds of a unit with its first letter, and what follows the part of it that is
taken. -/
def unitNanos : List Char → Option (ℕ × List Char)
  | 'n' :: rest => some (1, rest)
  | 'u' :: rest => some (1000, rest)
  | 'm' :: 's' :: rest => some (1000000, rest)
  | 'm' :: rest => some (60000000000, rest)
  | 's' :: rest => some (1000000000, rest)
  | 'h' :: rest => some (3600000000000, rest)
  | _ => none

section

variable (ops : FloatOps)

/-- The loop of `parse_human_duration` at position `i`, with a bound on its rounds. -/
def durationRounds : ℕ → ℕ → ℕ → List Char → Except DurationError ℕ
  | 0, _, totalNanos, _ => .ok totalNanos
  | n + 1, i, totalNanos, s =>
      if s = [] then .ok totalNanos
      else
        let numStr := s.takeWhile isNumberChar
        if numStr = [] then .error (.missingNumber i)
        else
          match ops.parse numStr with
          | none => .error (.invalidNumber numStr)
          | some num =>
              match s.dropWhile isNumberChar with
              | [] => .error .missingUnit
              | unit :: rest =>
                  match unitNanos (unit :: rest) with
                  | none => .error (.unknownUnit ((Utf8.encode [unit]).headD 0))
                  | some (k, rest) =>
                      let nanos := ops.timesAsU128 num k
                      if 2 ^ 128 ≤ totalNanos + nanos then .error .overflow
                      else durationRounds n (i + (s.length - rest.length)) (totalNanos + nanos) rest

/-- `parse_human_duration`, in nanoseconds.  Every round takes a character at least. -/
def parseHumanDuration (s : List Char) : Except DurationError ℕ :=
  match durationRounds ops s.length 0 0 s with
  | .error e => .error e
  | .ok totalNanos => if totalNanos = 0 then .error .empty else .ok (totalNanos % 2 ^ 64)

end

/-- Numbers below `2 ^ 53` are `f64`, and so is a product below `2 ^ 53`. -/
def FloatOps.Exact (ops : FloatOps) : Prop :=
  ∀ ds : List Char, ds ≠ [] → (∀ c ∈ ds, c.isDigit = true) → ∀ k, digitsVal ds * k < 2 ^ 53 →
    ∃ num, ops.parse ds = some num ∧ ops.timesAsU128 num k = digitsVal ds * k

/-! ### Written durations -/

/-- The documented units. -/
inductive DurationUnit where
  | ns | us | ms | s | m | h
deriving DecidableEq

namespace DurationUnit

def text : DurationUnit → List Char
  | ns => ['n', 's']
  | us => ['u', 's']
  | ms => ['m', 's']
  | s => ['s']
  | m => ['m']
  | h => ['h']

def nanos : DurationUnit → ℕ
  | ns => 1
  | us => 1000
  | ms => 1000000
  | s => 1000000000
  | m => 60000000000
  | h => 3600000000000

theorem nanos_pos (u : DurationUnit) : 0 < u.nanos := by cases u <;> decide

end DurationUnit

/-- A positive integer and a unit. -/
structure DurationComponent where
  digits : List Char
  unit : DurationUnit
  digits_ne_nil : digits ≠ []
  isDigit : ∀ c ∈ digits, c.isDigit = true
  digits_pos : 0 < digitsVal digits

namespace DurationComponent

def text (c : DurationComponent) : List Char := c.digits ++ c.unit.text

def nanos (c : DurationComponent) : ℕ := digitsVal c.digits * c.unit.nanos

theorem nanos_pos (c : DurationComponent) : 0 < c.nanos :=
  Nat.mul_pos c.digits_pos c.unit.nanos_pos

end DurationComponent

/-- The text of several components. -/
def durationText (cs : List DurationComponent) : List Char := cs.flatMap DurationComponent.text

/-- The sum of several components. -/
def durationNanos (cs : List DurationComponent) : ℕ := (cs.map DurationComponent.nanos).sum

/-- The second letter of the unit is not taken. -/
def DurationUnit.halfTaken (u : DurationUnit) : Prop := u = .ns ∨ u = .us

instance (u : DurationUnit) : Decidable u.halfTaken := inferInstanceAs (Decidable (_ ∨ _))

/-! ### A component -/

section

variable {ops : FloatOps}

theorem head_durationText (cs : List DurationComponent) :
    durationText cs = [] ∨ ∃ c t, durationText cs = c :: t ∧ c.isDigit = true := by
  cases cs with
  | nil => exact .inl rfl
  | cons c cs =>
      right
      obtain ⟨d, ds, hd⟩ := List.exists_cons_of_ne_nil c.digits_ne_nil
      refine ⟨d, _, by rw [durationText, List.flatMap_cons, DurationComponent.text, hd]; rfl, ?_⟩
      exact c.isDigit d (by simp [hd])

/-- What is taken of the unit of a component. -/
theorem unitNanos_text (u : DurationUnit) (cs : List DurationComponent) :
    unitNanos (u.text ++ durationText cs) =
      some (u.nanos, if u.halfTaken then 's' :: durationText cs else durationText cs) := by
  cases u with
  | m =>
      obtain h | ⟨c, t, h, hc⟩ := head_durationText cs
      · rw [h]
        rfl
      · rw [h]
        have hs : c ≠ 's' := by
          rintro rfl
          exact absurd hc (by decide)
        simp [DurationUnit.text, unitNanos, hs, DurationUnit.halfTaken, DurationUnit.nanos]
  | _ => rfl

theorem head_unit_text (u : DurationUnit) : ∃ c t, u.text = c :: t ∧ isNumberChar c = false := by
  cases u <;> exact ⟨_, _, rfl, by decide⟩

/-- A round takes the number and its unit, or half of it. -/
theorem durationRounds_component (hops : ops.Exact) (c : DurationComponent)
    (cs : List DurationComponent) {total : ℕ} (n i : ℕ) (hc : c.nanos < 2 ^ 53)
    (htotal : total + c.nanos < 2 ^ 53) :
    ∃ j, durationRounds ops (n + 1) i total (c.text ++ durationText cs) =
      durationRounds ops n j (total + c.nanos)
        (if c.unit.halfTaken then 's' :: durationText cs else durationText cs) := by
  obtain ⟨d, t, hunit, hd⟩ := head_unit_text c.unit
  have hnum : ∀ x ∈ c.digits, isNumberChar x = true := by
    intro x hx
    rw [isNumberChar, c.isDigit x hx, Bool.true_or]
  have hsplit : c.text ++ durationText cs = c.digits ++ (c.unit.text ++ durationText cs) := by
    rw [DurationComponent.text, List.append_assoc]
  have htake : (c.text ++ durationText cs).takeWhile isNumberChar = c.digits := by
    rw [hsplit, hunit, List.takeWhile_append_of_pos hnum, List.cons_append,
      List.takeWhile_cons_of_neg (by simp [hd]), List.append_nil]
  have hdrop : (c.text ++ durationText cs).dropWhile isNumberChar =
      c.unit.text ++ durationText cs := by
    rw [hsplit, hunit, List.dropWhile_append_of_pos hnum, List.cons_append,
      List.dropWhile_cons_of_neg (by simp [hd])]
  have hne : c.text ++ durationText cs ≠ [] := by
    rw [hsplit]
    exact List.append_ne_nil_of_left_ne_nil c.digits_ne_nil _
  obtain ⟨num, hparse, htimes⟩ := hops c.digits c.digits_ne_nil c.isDigit c.unit.nanos hc
  have hbound : ¬ 2 ^ 128 ≤ total + digitsVal c.digits * c.unit.nanos := by
    have hsum : total + digitsVal c.digits * c.unit.nanos < 2 ^ 53 := htotal
    have hpow : (2 : ℕ) ^ 53 ≤ 2 ^ 128 := Nat.pow_le_pow_right (by decide) (by decide)
    omega
  have htext := unitNanos_text c.unit cs
  rw [durationRounds, if_neg hne, htake, if_neg c.digits_ne_nil, hparse, hdrop]
  rw [hunit, List.cons_append] at htext ⊢
  simp only [htext, htimes, if_neg hbound]
  exact ⟨_, rfl⟩

theorem durationRounds_letter {n : ℕ} (i total : ℕ) (s : List Char) :
    durationRounds ops (n + 1) i total ('s' :: s) = .error (.missingNumber i) := by
  have htake : ('s' :: s).takeWhile isNumberChar = [] :=
    List.takeWhile_cons_of_neg (by decide)
  rw [durationRounds, if_neg (List.cons_ne_nil _ _), htake, if_pos rfl]

/-! ### A sequence -/

theorem durationNanos_cons (c : DurationComponent) (cs : List DurationComponent) :
    durationNanos (c :: cs) = c.nanos + durationNanos cs := by
  rw [durationNanos, List.map_cons, List.sum_cons]
  rfl

theorem length_durationText_cons (c : DurationComponent) (cs : List DurationComponent) :
    (durationText cs).length + 2 ≤ (durationText (c :: cs)).length := by
  have hd : 0 < c.digits.length := List.length_pos_of_ne_nil c.digits_ne_nil
  have hu : 0 < c.unit.text.length := by cases c.unit <;> decide
  rw [durationText, durationText, List.flatMap_cons, List.length_append, DurationComponent.text,
    List.length_append]
  omega

/-- The rounds add up the components, up to one whose unit is half taken. -/
theorem durationRounds_sum (hops : ops.Exact) {cs : List DurationComponent}
    (n i total : ℕ) (hn : (durationText cs).length ≤ n)
    (htotal : total + durationNanos cs < 2 ^ 53) :
    ((∀ c ∈ cs, ¬ c.unit.halfTaken) →
      durationRounds ops n i total (durationText cs) = .ok (total + durationNanos cs)) ∧
    ((∃ c ∈ cs, c.unit.halfTaken) →
      ∃ e, durationRounds ops n i total (durationText cs) = .error e) := by
  induction cs generalizing n i total with
  | nil =>
      refine ⟨fun _ => ?_, by simp⟩
      cases n <;> simp [durationRounds, durationText, durationNanos]
  | cons c cs ih =>
      have hlen := length_durationText_cons c cs
      obtain ⟨n, rfl⟩ : ∃ k, n = k + 2 := ⟨n - 2, by omega⟩
      rw [durationNanos_cons] at htotal ⊢
      have htotal' : total + c.nanos < 2 ^ 53 := by omega
      obtain ⟨j, hround⟩ := durationRounds_component hops c cs (n + 1) i (by omega) htotal'
      rw [durationText, List.flatMap_cons, ← durationText, hround]
      by_cases hhalf : c.unit.halfTaken
      · rw [if_pos hhalf, durationRounds_letter]
        refine ⟨fun h => absurd hhalf (h c List.mem_cons_self), fun _ => ⟨_, rfl⟩⟩
      · rw [if_neg hhalf]
        obtain ⟨hok, herr⟩ := ih (n + 1) j (total + c.nanos) (by omega) (by omega)
        constructor
        · intro h
          rw [hok fun c' hc' => h c' (List.mem_cons_of_mem c hc'), Nat.add_assoc]
        · intro h
          obtain ⟨c', hc', hhalf'⟩ := h
          rcases List.mem_cons.1 hc' with rfl | hc'
          · exact absurd hhalf' hhalf
          · exact herr ⟨c', hc', hhalf'⟩

/-- **Durations**: a sequence of components whose sum is below `2 ^ 53` nanoseconds gives its sum if
and only if no component is in `ns` or `us`. -/
theorem parseHumanDuration_sum_iff (ops : FloatOps) (hops : ops.Exact)
    (cs : List DurationComponent) (hne : cs ≠ []) (hsum : durationNanos cs < 2 ^ 53) :
    parseHumanDuration ops (durationText cs) = .ok (durationNanos cs) ↔
      ∀ c ∈ cs, c.unit ≠ .ns ∧ c.unit ≠ .us := by
  have hunits : (∀ c ∈ cs, c.unit ≠ .ns ∧ c.unit ≠ .us) ↔ ∀ c ∈ cs, ¬ c.unit.halfTaken := by
    simp only [DurationUnit.halfTaken, not_or, ne_eq]
  rw [hunits]
  obtain ⟨hok, herr⟩ := durationRounds_sum hops (durationText cs).length 0 0 le_rfl
    (by omega)
  constructor
  · intro h c hc hhalf
    obtain ⟨e, he⟩ := herr ⟨c, hc, hhalf⟩
    rw [parseHumanDuration, he] at h
    cases h
  · intro h
    have hpos : durationNanos cs ≠ 0 := by
      obtain ⟨c, cs, rfl⟩ := List.exists_cons_of_ne_nil hne
      have := c.nanos_pos
      rw [durationNanos_cons]
      omega
    have hmod : durationNanos cs % 2 ^ 64 = durationNanos cs :=
      Nat.mod_eq_of_lt (hsum.trans_le (Nat.pow_le_pow_right (by decide) (by decide)))
    rw [parseHumanDuration, hok h, Nat.zero_add]
    simp only [if_neg hpos, hmod]

end

/-- Decimal numbers in place of `f64`. -/
def decimalOps : FloatOps where
  F64 := ℕ × ℕ
  parse l :=
    match l.splitOn '.' with
    | [whole] => if whole = [] then none else some (digitsVal whole, 0)
    | [whole, part] =>
        if whole = [] ∧ part = [] then none else some (digitsVal (whole ++ part), part.length)
    | _ => none
  timesAsU128 num k := min (num.1 * k / 10 ^ num.2) (2 ^ 128 - 1)

theorem decimalOps_exact : decimalOps.Exact := by
  intro ds hne hd k hk
  have hdot : '.' ∉ ds := fun h => absurd (hd '.' h) (by decide)
  have hsplit : ds.splitOn '.' = [ds] := List.splitOn_eq_singleton hdot
  refine ⟨(digitsVal ds, 0), by simp [decimalOps, hsplit, hne], ?_⟩
  have hpow : (2 : ℕ) ^ 53 ≤ 2 ^ 128 - 1 := by decide
  simp only [decimalOps, pow_zero, Nat.div_one]
  exact min_eq_left (hk.le.trans hpow)

/-- An hour and a half. -/
def hourAndHalf : List DurationComponent :=
  [⟨['1'], .h, by decide, List.all_eq_true.1 (by decide), by decide⟩,
    ⟨['3', '0'], .m, by decide, List.all_eq_true.1 (by decide), by decide⟩]

theorem parse_hourAndHalf :
    parseHumanDuration decimalOps "1h30m".toList = .ok 5400000000000 :=
  (parseHumanDuration_sum_iff decimalOps decimalOps_exact hourAndHalf (by decide) (by decide)).2
    (by decide)

def fiveNanos : List DurationComponent :=
  [⟨['5'], .ns, by decide, List.all_eq_true.1 (by decide), by decide⟩]

/-- Five nanoseconds are refused. -/
theorem parse_fiveNanos :
    decimalOps.Exact ∧ durationNanos fiveNanos = 5 ∧ durationText fiveNanos = "5ns".toList ∧
      parseHumanDuration decimalOps (durationText fiveNanos) = .error (.missingNumber 2) ∧
      (DurationError.missingNumber 2).message = "missing number at position 2" :=
  ⟨decimalOps_exact, by decide, by decide, by decide, by decide⟩

end Unitpm.Logs
