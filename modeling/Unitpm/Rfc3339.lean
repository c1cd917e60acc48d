import Unitpm.CivilDates

/-! # Reading timestamps

`parse_rfc3339` of `cli::format::time` takes a timestamp apart at its separators and reads the parts
with `from_str` of `i64`.  It does not look at how many digits a part has or whether its value is in
range, and the fraction is cut behind its ninth byte.

`parseRfc3339_text`: of a date and a time in the form of the standard it gives the instant. -/

namespace Unitpm.Format

open Rust.Str Utf8 Gregorian

/-! ### The parser -/

/-- `x?` in a function that returns an `Option`. -/
def andThen {α β : Type} (x : Except Trap (Option α)) (f : α → Except Trap (Option β)) :
    Except Trap (Option β) :=
  match x with
  | .error e => .error e
  | .ok none => .ok none
  | .ok (some a) => f a

/-- `from_str` of `i64`. -/
def parseI64 (s : List Char) : Option ℤ := parseSigned (2 ^ 63) (2 ^ 63 - 1) s

/-- The offset behind the sign of a time zone. -/
def tzOffset (sign : ℤ) (body : List Char) : Except Trap (Option ℤ) :=
  andThen (.ok (splitOnce ':' body)) fun (hh, mm) =>
  andThen (.ok (parseI64 hh)) fun h =>
  andThen (.ok (parseI64 mm)) fun m => do
    let hours ← i64 (h * 3600)
    let minutes ← i64 (m * 60)
    let sum ← i64 (hours + minutes)
    let offset ← i64 (sign * sum)
    return some offset

/-- `parse_tz`. -/
def parseTz (tz : List Char) : Except Trap (Option ℤ) :=
  if tz = [] ∨ tz = ['Z'] then .ok (some 0)
  else
    match tz with
    | '+' :: body => tzOffset 1 body
    | '-' :: body => tzOffset (-1) body
    | _ => .ok none

/-- The loop of `split_tz`, at byte `i`: the text before the time zone, and the time zone. -/
def findTz : ℕ → List Char → Option (List Char × List Char)
  | _, [] => none
  | i, c :: s =>
      if 2 ≤ i ∧ (c = 'Z' ∨ c = '+' ∨ c = '-') then some ([], c :: s)
      else (findTz (i + c.utf8Size) s).map fun p => (c :: p.1, p.2)

/-- `split_tz`. -/
def splitTz (rest : List Char) : Except Trap (Option (List Char × ℤ)) :=
  andThen (.ok (findTz 0 rest)) fun (time, tz) =>
  andThen (parseTz tz) fun offset => .ok (some (time, offset))

/-- A fraction with zeros behind it up to nine bytes. -/
def padFraction (f : List Char) : List Char := f ++ List.replicate (9 - byteLen f) '0'

/-- The nanoseconds of a fraction. -/
def parseFraction (f : List Char) : Except Trap ℤ :=
  match splitAtByte 9 (padFraction f) with
  | none => .error .charBoundary
  | some (digits, _) => .ok ((parseI64 digits).getD 0)

/-- The seconds of a time and the nanoseconds. -/
def parseSeconds (secStr : List Char) : Except Trap (Option (ℤ × ℤ)) :=
  match splitOnce '.' secStr with
  | some (s, f) =>
      andThen (.ok (parseI64 s)) fun sec => (parseFraction f).map fun frac => some (sec, frac)
  | none => andThen (.ok (parseI64 secStr)) fun sec => .ok (some (sec, 0))

/-- The seconds of a date and a time, in universal time. -/
def totalSeconds (days hour minute sec frac tz : ℤ) : Except Trap (Option ℤ) := do
  let total ← i64 (days * 86400)
  let hours ← i64 (hour * 3600)
  let total ← i64 (total + hours)
  let minutes ← i64 (minute * 60)
  let total ← i64 (total + minutes)
  let total ← i64 (total + sec)
  let total ← i64 (total - tz)
  let total ← i64 (if 500000000 ≤ frac then total + 1 else total)
  return some total

/-- `parse_rfc3339`, from the parts of the time on. -/
def parseTime (year month day tzOffsetSecs : ℤ) (timeStr : List Char) :
    Except Trap (Option ℤ) :=
  match timeStr.splitOn ':' with
  | [h, mi, secStr] =>
      andThen (.ok (parseI64 h)) fun hour =>
      andThen (.ok (parseI64 mi)) fun minute =>
      andThen (parseSeconds secStr) fun (sec, frac) =>
      andThen (daysFromCivil year month day) fun days =>
        totalSeconds days hour minute sec frac tzOffsetSecs
  | _ => .ok none

/-- `parse_rfc3339`. -/
def parseRfc3339 (ts : List Char) : Except Trap (Option ℤ) :=
  andThen (.ok (splitOnce 'T' ts)) fun (date, rest) =>
    match date.splitOn '-' with
    | [y, mo, d] =>
        andThen (.ok (parseI64 y)) fun year =>
        andThen (.ok (parseI64 mo)) fun month =>
        andThen (.ok (parseI64 d)) fun day =>
        andThen (splitTz rest) fun p => parseTime year month day p.2 p.1
    | _ => .ok none

/-! ### The standard -/

/-- The time zone of a timestamp. -/
inductive Zone where
  | utc
  | offset (west : Bool) (hours minutes : ℕ)

namespace Zone

def text : Zone → List Char
  | utc => ['Z']
  | offset west h m => (if west then '-' else '+') :: (padZero 2 h ++ ':' :: padZero 2 m)

/-- The seconds that local time is ahead of universal time. -/
def seconds : Zone → ℤ
  | utc => 0
  | offset west h m => (if west then -1 else 1) * (h * 3600 + m * 60)

def InRange : Zone → Prop
  | utc => True
  | offset _ h m => h ≤ 23 ∧ m ≤ 59

end Zone

/-- A date and a time of day. -/
structure DateTime where
  year : ℕ
  month : ℕ
  day : ℕ
  hour : ℕ
  minute : ℕ
  second : ℕ
  /-- The digits behind the seconds, if there are any. -/
  fraction : List Char
  zone : Zone

namespace DateTime

variable (t : DateTime)

/-- The fraction with its point. -/
def fractionText : List Char := if t.fraction = [] then [] else '.' :: t.fraction

def dateText : List Char :=
  padZero 4 t.year ++ '-' :: (padZero 2 t.month ++ '-' :: padZero 2 t.day)

def timeText : List Char :=
  padZero 2 t.hour ++ ':' :: (padZero 2 t.minute ++ ':' :: (padZero 2 t.second ++ t.fractionText))

/-- The timestamp. -/
def text : List Char := t.dateText ++ 'T' :: (t.timeText ++ t.zone.text)

/-- The fraction is a half or more. -/
def roundsUp : Prop := 10 ^ t.fraction.length ≤ 2 * digitsVal t.fraction

instance : Decidable t.roundsUp := inferInstanceAs (Decidable (_ ≤ _))

/-- The instant in seconds of Unix time, rounded half up. -/
def instant : ℤ :=
  dayNumber t.year t.month t.day * 86400 + t.hour * 3600 + t.minute * 60 + t.second -
    t.zone.seconds + if t.roundsUp then 1 else 0

/-- All parts but the year are in range. -/
structure InRange : Prop where
  month : 1 ≤ t.month ∧ t.month ≤ 12
  day : 1 ≤ t.day ∧ t.day ≤ 31
  hour : t.hour ≤ 23
  minute : t.minute ≤ 59
  second : t.second ≤ 59
  fraction : ∀ c ∈ t.fraction, c.isDigit = true
  zone : t.zone.InRange

/-- A date and a time of day of the standard, with a year of four digits. -/
structure Valid : Prop extends t.InRange where
  year : t.year < 10000
  date : ValidDate t.year t.month t.day

end DateTime

/-! ### Reading a timestamp -/

theorem andThen_ok_some {α β : Type} (a : α) (f : α → Except Trap (Option β)) :
    andThen (.ok (some a)) f = f a := rfl

/-- A number is one of 64 bits. -/
def FitsI64 (x : ℤ) : Prop := -2 ^ 63 ≤ x ∧ x < 2 ^ 63

theorem i64_of_fits {x : ℤ} (h : FitsI64 x) : i64 x = .ok x := if_pos h

theorem i64_of_not_fits {x : ℤ} (h : ¬ FitsI64 x) : i64 x = .error .overflow := if_neg h

/-- The offset behind a sign, or an overflow. -/
theorem tzOffset_cases (sign : ℤ) {h m : ℤ} {body hh mm : List Char}
    (hsplit : splitOnce ':' body = some (hh, mm)) (hh' : parseI64 hh = some h)
    (hm' : parseI64 mm = some m) :
    (FitsI64 (h * 3600) ∧ FitsI64 (m * 60) ∧ FitsI64 (h * 3600 + m * 60) ∧
        FitsI64 (sign * (h * 3600 + m * 60)) ∧
        tzOffset sign body = .ok (some (sign * (h * 3600 + m * 60)))) ∨
      ¬ (FitsI64 (h * 3600) ∧ FitsI64 (m * 60) ∧ FitsI64 (h * 3600 + m * 60) ∧
          FitsI64 (sign * (h * 3600 + m * 60))) ∧
        tzOffset sign body = .error .overflow := by
  have hoffset : tzOffset sign body = (do
      let hours ← i64 (h * 3600)
      let minutes ← i64 (m * 60)
      let sum ← i64 (hours + minutes)
      let offset ← i64 (sign * sum)
      return some offset) := by
    rw [tzOffset, hsplit, andThen_ok_some]
    simp only [hh', hm', andThen_ok_some]
  rw [hoffset]
  by_cases h1 : FitsI64 (h * 3600)
  · by_cases h2 : FitsI64 (m * 60)
    · by_cases h3 : FitsI64 (h * 3600 + m * 60)
      · by_cases h4 : FitsI64 (sign * (h * 3600 + m * 60))
        · refine .inl ⟨h1, h2, h3, h4, ?_⟩
          simp only [i64_of_fits h1, i64_of_fits h2, i64_of_fits h3, i64_of_fits h4, bind,
            Except.bind, pure, Except.pure]
        · refine .inr ⟨by tauto, ?_⟩
          simp only [i64_of_fits h1, i64_of_fits h2, i64_of_fits h3, i64_of_not_fits h4, bind,
            Except.bind]
      · refine .inr ⟨by tauto, ?_⟩
        simp only [i64_of_fits h1, i64_of_fits h2, i64_of_not_fits h3, bind, Except.bind]
    · refine .inr ⟨by tauto, ?_⟩
      simp only [i64_of_fits h1, i64_of_not_fits h2, bind, Except.bind]
  · refine .inr ⟨by tauto, ?_⟩
    simp only [i64_of_not_fits h1, bind, Except.bind]

theorem parseI64_padZero {w n : ℕ} (h : n < 2 ^ 63) : parseI64 (padZero w n) = some (n : ℤ) :=
  parseSigned_padZero (by omega)

theorem not_mem_padZero {w n : ℕ} {c : Char} (hc : c.isDigit = false) : c ∉ padZero w n := by
  intro h
  rw [isDigit_of_mem_padZero c h] at hc
  cases hc

theorem findTz_append {i : ℕ} {time z : List Char} {c : Char}
    (htime : ∀ d ∈ time, d ≠ 'Z' ∧ d ≠ '+' ∧ d ≠ '-') (hlen : 2 ≤ i + byteLen time)
    (hc : c = 'Z' ∨ c = '+' ∨ c = '-') : findTz i (time ++ c :: z) = some (time, c :: z) := by
  induction time generalizing i with
  | nil =>
      rw [List.nil_append, findTz, if_pos ⟨by simpa using hlen, hc⟩]
  | cons d time ih =>
      have hd := htime d (by simp)
      have hrest := ih (i := i + d.utf8Size) (fun e he => htime e (by simp [he]))
        (by rw [byteLen_cons] at hlen; omega)
      rw [List.cons_append, findTz, if_neg (by tauto), hrest]
      rfl

namespace DateTime

variable {t : DateTime}

theorem mem_fractionText {c : Char} (h : t.InRange) (hc : c ∈ t.fractionText) :
    c = '.' ∨ c.isDigit = true := by
  unfold fractionText at hc
  split_ifs at hc
  · cases hc
  · rcases List.mem_cons.1 hc with rfl | hc
    · exact .inl rfl
    · exact .inr (h.fraction c hc)

theorem mem_timeText {c : Char} (h : t.InRange) (hc : c ∈ t.timeText) :
    c = ':' ∨ c = '.' ∨ c.isDigit = true := by
  simp only [timeText, List.mem_append, List.mem_cons] at hc
  rcases hc with hc | rfl | hc | rfl | hc | hc
  · exact .inr (.inr (isDigit_of_mem_padZero c hc))
  · exact .inl rfl
  · exact .inr (.inr (isDigit_of_mem_padZero c hc))
  · exact .inl rfl
  · exact .inr (.inr (isDigit_of_mem_padZero c hc))
  · exact .inr (mem_fractionText h hc)

theorem splitOnce_text (t : DateTime) :
    splitOnce 'T' t.text = some (t.dateText, t.timeText ++ t.zone.text) := by
  refine splitOnce_append _ ?_
  simp only [dateText, List.mem_append, List.mem_cons, not_or]
  exact ⟨not_mem_padZero (by decide), by decide, not_mem_padZero (by decide), by decide,
    not_mem_padZero (by decide)⟩

theorem splitOn_dateText (t : DateTime) :
    t.dateText.splitOn '-' = [padZero 4 t.year, padZero 2 t.month, padZero 2 t.day] := by
  rw [dateText, List.splitOn_append_cons_self_of_not_mem (not_mem_padZero (by decide)),
    List.splitOn_append_cons_self_of_not_mem (not_mem_padZero (by decide)),
    List.splitOn_eq_singleton (not_mem_padZero (by decide))]

theorem splitOn_timeText (h : t.InRange) :
    t.timeText.splitOn ':' =
      [padZero 2 t.hour, padZero 2 t.minute, padZero 2 t.second ++ t.fractionText] := by
  have hsec : ':' ∉ padZero 2 t.second ++ t.fractionText := by
    rw [List.mem_append, not_or]
    refine ⟨not_mem_padZero (by decide), fun hm => ?_⟩
    rcases mem_fractionText h hm with hc | hc <;> cases hc
  rw [timeText, List.splitOn_append_cons_self_of_not_mem (not_mem_padZero (by decide)),
    List.splitOn_append_cons_self_of_not_mem (not_mem_padZero (by decide)),
    List.splitOn_eq_singleton hsec]

end DateTime

theorem parseTz_text {zone : Zone} (h : zone.InRange) :
    parseTz zone.text = .ok (some zone.seconds) := by
  cases zone with
  | utc => rfl
  | offset west hours minutes =>
      obtain ⟨hh, hm⟩ : hours ≤ 23 ∧ minutes ≤ 59 := h
      have hsplit : splitOnce ':' (padZero 2 hours ++ ':' :: padZero 2 minutes) =
          some (padZero 2 hours, padZero 2 minutes) :=
        splitOnce_append _ (not_mem_padZero (by decide))
      have hoffset : ∀ sign : ℤ, sign = 1 ∨ sign = -1 →
          tzOffset sign (padZero 2 hours ++ ':' :: padZero 2 minutes) =
            .ok (some (sign * (hours * 3600 + minutes * 60))) := by
        intro sign hsign
        rcases tzOffset_cases sign hsplit (parseI64_padZero (by omega))
          (parseI64_padZero (by omega)) with ⟨-, -, -, -, ho⟩ | ⟨hno, -⟩
        · exact ho
        · refine absurd ?_ hno
          unfold FitsI64
          rcases hsign with rfl | rfl <;> omega
      cases west with
      | false =>
          rw [Zone.text, if_neg (by simp), parseTz, if_neg (by simp), hoffset 1 (.inl rfl)]
          rfl
      | true =>
          rw [Zone.text, if_pos rfl, parseTz, if_neg (by simp), hoffset (-1) (.inr rfl)]
          rfl

theorem splitTz_text {t : DateTime} (h : t.InRange) :
    splitTz (t.timeText ++ t.zone.text) = .ok (some (t.timeText, t.zone.seconds)) := by
  obtain ⟨c, z, htext, hc⟩ : ∃ c z, t.zone.text = c :: z ∧ (c = 'Z' ∨ c = '+' ∨ c = '-') := by
    cases t.zone with
    | utc => exact ⟨'Z', [], rfl, .inl rfl⟩
    | offset west hours minutes =>
        refine ⟨_, _, rfl, ?_⟩
        cases west <;> simp
  have htime : ∀ d ∈ t.timeText, d ≠ 'Z' ∧ d ≠ '+' ∧ d ≠ '-' := by
    intro d hd
    rcases DateTime.mem_timeText h hd with rfl | rfl | hd
    · decide
    · decide
    · refine ⟨?_, ?_, ?_⟩ <;> rintro rfl <;> cases hd
  have hlen : 2 ≤ 0 + byteLen t.timeText := by
    have hhour := h.hour
    rw [DateTime.timeText, byteLen_append, Logs.byteLen_padZero (by decide) (by omega)]
    omega
  have hfind : findTz 0 (t.timeText ++ t.zone.text) = some (t.timeText, t.zone.text) := by
    rw [htext]
    exact findTz_append htime hlen hc
  rw [splitTz, hfind, andThen_ok_some]
  simp only [parseTz_text h.zone, andThen_ok_some]

/-! #### The fraction -/

theorem half_le_append_zeros (f : List Char) (k : ℕ) :
    10 ^ (f ++ List.replicate k '0').length ≤ 2 * digitsVal (f ++ List.replicate k '0') ↔
      10 ^ f.length ≤ 2 * digitsVal f := by
  rw [digitsVal_append, digitsVal_replicate, List.length_append, List.length_replicate, pow_add,
    Nat.add_zero, ← Nat.mul_assoc]
  exact Nat.mul_le_mul_right_iff (by positivity)

/-- The first digits tell whether a fraction is a half or more. -/
theorem half_le_append {a b : List Char} (ha : a ≠ []) (hb : ∀ c ∈ b, c.isDigit = true) :
    10 ^ (a ++ b).length ≤ 2 * digitsVal (a ++ b) ↔ 10 ^ a.length ≤ 2 * digitsVal a := by
  obtain ⟨n, hn⟩ : ∃ n, a.length = n + 1 :=
    Nat.exists_eq_succ_of_ne_zero (by simpa using ha)
  have hlt := digitsVal_lt hb
  rw [digitsVal_append, List.length_append, pow_add, hn, pow_succ]
  generalize 10 ^ b.length = p at hlt ⊢
  generalize 10 ^ n = q
  constructor
  · intro h
    by_contra hlow
    -- both sides are even
    have hstep : (digitsVal a + 1) * p ≤ q * 5 * p := Nat.mul_le_mul_right _ (by omega)
    rw [Nat.add_mul, Nat.one_mul] at hstep
    have hten : q * 10 * p = q * 5 * p + q * 5 * p := by
      rw [← Nat.add_mul, ← Nat.mul_add]
    omega
  · intro h
    have hstep : q * 10 * p ≤ 2 * digitsVal a * p := Nat.mul_le_mul_right _ h
    rw [Nat.mul_assoc 2] at hstep
    omega

theorem parseSeconds_text {t : DateTime} (h : t.InRange) :
    ∃ frac, parseSeconds (padZero 2 t.second ++ t.fractionText) = .ok (some (t.second, frac)) ∧
      (500000000 ≤ frac ↔ t.roundsUp) := by
  have hs := h.second
  have hsec : parseI64 (padZero 2 t.second) = some (t.second : ℤ) := parseI64_padZero (by omega)
  have hpoint : '.' ∉ padZero 2 t.second := not_mem_padZero (by decide)
  by_cases hf : t.fraction = []
  · refine ⟨0, ?_, ?_⟩
    · rw [DateTime.fractionText, if_pos hf, List.append_nil, parseSeconds,
        splitOnce_eq_none.2 hpoint]
      simp only [hsec, andThen_ok_some]
    · rw [DateTime.roundsUp, hf]
      decide
  · -- the nine digits that are read, and what is cut off
    have hdigit : ∀ c ∈ padFraction t.fraction, c.isDigit = true := by
      intro c hc
      rcases List.mem_append.1 hc with hc | hc
      · exact h.fraction c hc
      · rw [List.eq_of_mem_replicate hc]
        decide
    have hlen : 9 ≤ (padFraction t.fraction).length := by
      have hbytes := byteLen_eq_length fun c hc => utf8Size_of_isDigit (h.fraction c hc)
      rw [padFraction, List.length_append, List.length_replicate]
      omega
    obtain ⟨a, b, hab, ha⟩ : ∃ a b, padFraction t.fraction = a ++ b ∧ a.length = 9 :=
      ⟨_, _, (List.take_append_drop 9 _).symm, by rw [List.length_take]; omega⟩
    rw [hab] at hdigit
    have hda : ∀ c ∈ a, c.isDigit = true := fun c hc => hdigit c (by simp [hc])
    have hdb : ∀ c ∈ b, c.isDigit = true := fun c hc => hdigit c (by simp [hc])
    have hne : a ≠ [] := by
      rintro rfl
      cases ha
    have hcut : splitAtByte 9 (padFraction t.fraction) = some (a, b) := by
      have hbytes : byteLen a = 9 := by
        rw [byteLen_eq_length fun c hc => utf8Size_of_isDigit (hda c hc), ha]
      rw [hab, ← hbytes, splitAtByte_append]
    have hlt : digitsVal a < 10 ^ 9 := ha ▸ digitsVal_lt hda
    have hread : parseI64 a = some (digitsVal a : ℤ) := parseSigned_digits hne hda (by omega)
    refine ⟨digitsVal a, ?_, ?_⟩
    · rw [DateTime.fractionText, if_neg hf, parseSeconds, splitOnce_append _ hpoint]
      simp only [hsec, andThen_ok_some, parseFraction, hcut, hread, Option.getD_some, Except.map]
    · rw [DateTime.roundsUp, ← half_le_append_zeros t.fraction (9 - byteLen t.fraction),
        ← padFraction, hab, half_le_append hne hdb, ha]
      omega

/-! #### The instant -/

theorem dayNumber_bounds {y m d : ℤ} (hy0 : 0 ≤ y) (hy : y ≤ 2 ^ 32) (hm : 1 ≤ m ∧ m ≤ 12)
    (hd : 1 ≤ d ∧ d ≤ 31) : -2 ^ 42 ≤ dayNumber y m d ∧ dayNumber y m d ≤ 2 ^ 42 := by
  rw [← eraDays_eq hm.1 hm.2]
  unfold eraDays
  split_ifs <;> dsimp only <;> omega

theorem totalSeconds_eq {days hour minute sec frac tz : ℤ} (hdays : -2 ^ 42 ≤ days ∧ days ≤ 2 ^ 42)
    (hhour : 0 ≤ hour ∧ hour ≤ 23) (hminute : 0 ≤ minute ∧ minute ≤ 59)
    (hsec : 0 ≤ sec ∧ sec ≤ 59) (htz : -2 ^ 20 ≤ tz ∧ tz ≤ 2 ^ 20) :
    totalSeconds days hour minute sec frac tz =
      .ok (some (days * 86400 + hour * 3600 + minute * 60 + sec - tz +
        if 500000000 ≤ frac then 1 else 0)) := by
  by_cases hf : 500000000 ≤ frac
  · simp (disch := omega) only [totalSeconds, bind, Except.bind, pure, Except.pure, i64_eq,
      if_pos hf]
  · simp (disch := omega) only [totalSeconds, bind, Except.bind, pure, Except.pure, i64_eq,
      if_neg hf, Int.add_zero]

theorem Zone.seconds_bounds {zone : Zone} (h : zone.InRange) :
    -2 ^ 20 ≤ zone.seconds ∧ zone.seconds ≤ 2 ^ 20 := by
  cases zone with
  | utc => decide
  | offset west hours minutes =>
      obtain ⟨hh, hm⟩ : hours ≤ 23 ∧ minutes ≤ 59 := h
      unfold Zone.seconds
      cases west <;> simp only [Bool.false_eq_true, if_false, if_true] <;> omega

/-- The parser gives the instant of a timestamp; the day need not be one of its month. -/
theorem parseRfc3339_text (t : DateTime) (h : t.InRange) (hy : t.year ≤ 2 ^ 32) :
    parseRfc3339 t.text = .ok (some t.instant) := by
  obtain ⟨frac, hseconds, hround⟩ := parseSeconds_text h
  obtain ⟨hm1, hm12⟩ := h.month
  obtain ⟨hd1, hd31⟩ := h.day
  have hhour := h.hour
  have hminute := h.minute
  have hsecond := h.second
  have hdays : daysFromCivil t.year t.month t.day = .ok (some (dayNumber t.year t.month t.day)) :=
    daysFromCivil_eq (by omega) (by omega) (by omega) (by omega) (by omega) (by omega)
  have hbound : -2 ^ 42 ≤ dayNumber t.year t.month t.day ∧
      dayNumber t.year t.month t.day ≤ 2 ^ 42 :=
    dayNumber_bounds (by omega) (by omega) ⟨by omega, by omega⟩ ⟨by omega, by omega⟩
  rw [parseRfc3339, DateTime.splitOnce_text, andThen_ok_some]
  simp only [DateTime.splitOn_dateText]
  rw [parseI64_padZero (by omega), parseI64_padZero (by omega), parseI64_padZero (by omega)]
  simp only [andThen_ok_some, splitTz_text h, parseTime, DateTime.splitOn_timeText h]
  rw [parseI64_padZero (by omega), parseI64_padZero (by omega)]
  simp only [andThen_ok_some, hseconds, hdays]
  rw [totalSeconds_eq hbound ⟨by omega, by omega⟩ ⟨by omega, by omega⟩ ⟨by omega, by omega⟩
    (Zone.seconds_bounds h.zone), DateTime.instant]
  simp only [hround]

theorem DateTime.date_of_text (t : DateTime) :
    ((splitOnce 'T' t.text).map fun p => (p.1.splitOn '-').map digitsVal) =
      some [t.year, t.month, t.day] := by
  rw [splitOnce_text, Option.map_some, splitOn_dateText]
  simp only [List.map_cons, List.map_nil, digitsVal_padZero]

end Unitpm.Format
