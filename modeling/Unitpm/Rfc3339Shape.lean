import Unitpm.Rfc3339

/-! # What the parser of timestamps accepts

For a text that is not a valid timestamp `parse_rfc3339` promises `None`.

`parseRfc3339_eq_none_iff`: it is `None` for the texts that do not have a loose shape (`Shaped`).
`meetsRfc3339_iff`: so the promise is kept for the valid timestamps and for the texts without that
shape, and for no others. -/

namespace Unitpm.Format

open Rust.Str Utf8 Gregorian

/-- The text is a valid timestamp. -/
def IsTimestamp (ts : List Char) : Prop := ∃ t : DateTime, t.Valid ∧ ts = t.text

/-- `parse_rfc3339` gives the instant of a valid timestamp, and nothing for any other text. -/
def MeetsRfc3339 (ts : List Char) : Prop :=
  (∀ t : DateTime, t.Valid → ts = t.text → parseRfc3339 ts = .ok (some t.instant)) ∧
    (¬ IsTimestamp ts → parseRfc3339 ts = .ok none)

/-! ### The texts that get past the parser's checks -/

/-- An integer of 64 bits, with or without a sign. -/
def IsI64 (s : List Char) : Prop := (parseI64 s).isSome

/-- Three integers with dashes between them. -/
def DateShaped (date : List Char) : Prop :=
  ∃ y m d, date.splitOn '-' = [y, m, d] ∧ IsI64 y ∧ IsI64 m ∧ IsI64 d

/-- Three integers with colons between them; a point and any text may follow. -/
def TimeShaped (time : List Char) : Prop :=
  ∃ h m s, time.splitOn ':' = [h, m, s] ∧ IsI64 h ∧ IsI64 m ∧
    IsI64 (((splitOnce '.' s).map Prod.fst).getD s)

/-- A `Z`, or a sign and two integers with a colon between them. -/
def ZoneShaped (zone : List Char) : Prop :=
  zone = ['Z'] ∨ ∃ sign body hh mm, zone = sign :: body ∧ (sign = '+' ∨ sign = '-') ∧
    splitOnce ':' body = some (hh, mm) ∧ IsI64 hh ∧ IsI64 mm

/-- The offset of a time zone leaves the range of `i64`. -/
def ZoneOverflows (zone : List Char) : Prop :=
  ∃ sign body hh mm h m, zone = sign :: body ∧ splitOnce ':' body = some (hh, mm) ∧
    parseI64 hh = some h ∧ parseI64 mm = some m ∧
    ¬ (FitsI64 (h * 3600) ∧ FitsI64 (m * 60) ∧ FitsI64 (h * 3600 + m * 60) ∧
      (sign = '-' → FitsI64 (-(h * 3600 + m * 60))))

/-- A date, a `T`, a time, and from its third byte on a time zone.  If the offset of the time zone
is too large the time does not matter. -/
def Shaped (ts : List Char) : Prop :=
  ∃ date rest time zone, splitOnce 'T' ts = some (date, rest) ∧ DateShaped date ∧
    findTz 0 rest = some (time, zone) ∧ ZoneShaped zone ∧ (TimeShaped time ∨ ZoneOverflows zone)

/-! ### What is refused -/

section

variable {α β : Type}

theorem andThen_eq_none_iff (x : Except Trap (Option α)) (f : α → Except Trap (Option β)) :
    andThen x f = .ok none ↔ x = .ok none ∨ ∃ a, x = .ok (some a) ∧ f a = .ok none := by
  match x with
  | .error e => simp [andThen]
  | .ok none => simp [andThen]
  | .ok (some a) => simp [andThen]

theorem bind_ne_none {x : Except Trap α} {f : α → Except Trap (Option β)}
    (h : ∀ a, f a ≠ .ok none) : x >>= f ≠ .ok none := by
  intro hx
  cases x with
  | error e => cases hx
  | ok a => exact h a hx

theorem pure_some_ne_none (a : α) : (pure (some a) : Except Trap (Option α)) ≠ .ok none := by
  intro h
  cases h

end

theorem isI64_iff (s : List Char) : IsI64 s ↔ ∃ n, parseI64 s = some n :=
  Option.isSome_iff_exists

theorem andThen_parseI64_eq_none_iff {β : Type} (s : List Char) (f : ℤ → Except Trap (Option β)) :
    andThen (.ok (parseI64 s)) f = .ok none ↔
      ¬ IsI64 s ∨ ∃ n, parseI64 s = some n ∧ f n = .ok none := by
  rw [andThen_eq_none_iff, isI64_iff]
  cases parseI64 s <;> simp

theorem daysFromCivil_ne_none (y m d : ℤ) : daysFromCivil y m d ≠ .ok none := by
  unfold daysFromCivil
  iterate 16 refine bind_ne_none fun _ => ?_
  exact pure_some_ne_none _

theorem totalSeconds_ne_none (days hour minute sec frac tz : ℤ) :
    totalSeconds days hour minute sec frac tz ≠ .ok none := by
  unfold totalSeconds
  iterate 8 refine bind_ne_none fun _ => ?_
  exact pure_some_ne_none _

theorem tzOffset_eq_none_iff (sign : ℤ) (body : List Char) :
    tzOffset sign body = .ok none ↔
      ¬ ∃ hh mm, splitOnce ':' body = some (hh, mm) ∧ IsI64 hh ∧ IsI64 mm := by
  rw [tzOffset, andThen_eq_none_iff]
  cases splitOnce ':' body with
  | none => simp
  | some p =>
      obtain ⟨hh, mm⟩ := p
      have hrest : ∀ h m : ℤ, (do
          let hours ← i64 (h * 3600)
          let minutes ← i64 (m * 60)
          let sum ← i64 (hours + minutes)
          let offset ← i64 (sign * sum)
          return some offset : Except Trap (Option ℤ)) ≠ .ok none := by
        intro h m
        iterate 4 refine bind_ne_none fun _ => ?_
        exact pure_some_ne_none _
      simp only [Except.ok.injEq, reduceCtorEq, Option.some.injEq, exists_eq_left', false_or,
        andThen_parseI64_eq_none_iff, hrest, and_false, exists_false, or_false, Prod.mk.injEq]
      by_cases hh' : IsI64 hh
      · obtain ⟨h, hh''⟩ := (isI64_iff hh).1 hh'
        simp [hh', hh'']
      · simp [hh']

theorem of_findTz {i : ℕ} {s time zone : List Char} (h : findTz i s = some (time, zone)) :
    ∃ c z, zone = c :: z ∧ (c = 'Z' ∨ c = '+' ∨ c = '-') := by
  induction s generalizing i time with
  | nil => cases h
  | cons c s ih =>
      rw [findTz] at h
      split_ifs at h with hc
      · obtain ⟨rfl, rfl⟩ := Prod.mk.inj (Option.some.inj h)
        exact ⟨c, s, rfl, hc.2⟩
      · obtain ⟨p, hp, he⟩ := Option.map_eq_some_iff.1 h
        obtain ⟨rfl, rfl⟩ := Prod.mk.inj he
        exact ih hp

theorem parseTz_eq_none_iff {c : Char} {z : List Char} (hc : c = 'Z' ∨ c = '+' ∨ c = '-') :
    parseTz (c :: z) = .ok none ↔ ¬ ZoneShaped (c :: z) := by
  have hsigned : c = '+' ∨ c = '-' → (ZoneShaped (c :: z) ↔
      ∃ hh mm, splitOnce ':' z = some (hh, mm) ∧ IsI64 hh ∧ IsI64 mm) := by
    intro hsign
    constructor
    · rintro (hz | ⟨sign, body, hh, mm, hcons, -, hsplit⟩)
      · obtain ⟨rfl, -⟩ := List.cons.inj hz
        rcases hsign with h | h <;> cases h
      · obtain ⟨rfl, rfl⟩ := List.cons.inj hcons
        exact ⟨hh, mm, hsplit⟩
    · rintro ⟨hh, mm, hsplit⟩
      exact .inr ⟨c, z, hh, mm, rfl, hsign, hsplit⟩
  rcases hc with rfl | rfl | rfl
  · by_cases hz : z = []
    · simp [parseTz, hz, ZoneShaped]
    · have hshape : ¬ ZoneShaped ('Z' :: z) := by
        rintro (h | ⟨sign, body, hh, mm, hcons, hsign, -⟩)
        · exact hz (List.cons.inj h).2
        · obtain ⟨rfl, -⟩ := List.cons.inj hcons
          rcases hsign with h | h <;> cases h
      simp [parseTz, hz, hshape]
  · rw [hsigned (.inl rfl), parseTz, if_neg (by simp)]
    exact tzOffset_eq_none_iff 1 z
  · rw [hsigned (.inr rfl), parseTz, if_neg (by simp)]
    exact tzOffset_eq_none_iff (-1) z

theorem parseSeconds_eq_none_iff (s : List Char) :
    parseSeconds s = .ok none ↔ ¬ IsI64 (((splitOnce '.' s).map Prod.fst).getD s) := by
  rw [parseSeconds]
  cases splitOnce '.' s with
  | none => simp [andThen_parseI64_eq_none_iff]
  | some p =>
      have hcut : ∀ sec : ℤ, ((parseFraction p.2).map fun frac => some (sec, frac)) ≠ .ok none := by
        intro sec
        cases parseFraction p.2 <;> simp [Except.map]
      simp only [andThen_parseI64_eq_none_iff, hcut, and_false, exists_false, or_false,
        Option.map_some, Option.getD_some]

/-- A time zone that has its shape gives an offset or an overflow. -/
theorem parseTz_of_shaped {zone : List Char} (h : ZoneShaped zone) :
    (¬ ZoneOverflows zone ∧ ∃ offset, parseTz zone = .ok (some offset)) ∨
      ZoneOverflows zone ∧ parseTz zone = .error .overflow := by
  rcases h with rfl | ⟨sign, body, hh, mm, rfl, hsign, hsplit, hh', hm'⟩
  · refine .inl ⟨?_, 0, by decide⟩
    rintro ⟨sign, body, hh, mm, h, m, hcons, hsplit, -⟩
    obtain ⟨-, rfl⟩ := List.cons.inj hcons
    cases hsplit
  · obtain ⟨h, hh''⟩ := (isI64_iff hh).1 hh'
    obtain ⟨m, hm''⟩ := (isI64_iff mm).1 hm'
    have hover : ZoneOverflows (sign :: body) ↔
        ¬ (FitsI64 (h * 3600) ∧ FitsI64 (m * 60) ∧ FitsI64 (h * 3600 + m * 60) ∧
          (sign = '-' → FitsI64 (-(h * 3600 + m * 60)))) := by
      constructor
      · rintro ⟨sign', body', a, b, h', m', hcons, hs, ha, hb, hno⟩
        obtain ⟨rfl, rfl⟩ := List.cons.inj hcons
        obtain ⟨rfl, rfl⟩ := Prod.mk.inj (Option.some.inj (hsplit.symm.trans hs))
        obtain rfl := Option.some.inj (hh''.symm.trans ha)
        obtain rfl := Option.some.inj (hm''.symm.trans hb)
        exact hno
      · intro hno
        exact ⟨sign, body, hh, mm, h, m, rfl, hsplit, hh'', hm'', hno⟩
    rw [hover, not_not]
    rcases hsign with rfl | rfl
    · rw [parseTz, if_neg (by simp)]
      rcases tzOffset_cases 1 hsplit hh'' hm'' with ⟨h1, h2, h3, -, ho⟩ | ⟨hno, ho⟩
      · exact .inl ⟨⟨h1, h2, h3, fun e => by cases e⟩, _, ho⟩
      · rw [one_mul] at hno
        refine .inr ⟨?_, ho⟩
        rintro ⟨h1, h2, h3, -⟩
        exact hno ⟨h1, h2, h3, h3⟩
    · rw [parseTz, if_neg (by simp)]
      rcases tzOffset_cases (-1) hsplit hh'' hm'' with ⟨h1, h2, h3, h4, ho⟩ | ⟨hno, ho⟩
      · rw [neg_one_mul] at h4
        exact .inl ⟨⟨h1, h2, h3, fun _ => h4⟩, _, ho⟩
      · rw [neg_one_mul] at hno
        refine .inr ⟨?_, ho⟩
        rintro ⟨h1, h2, h3, h4⟩
        exact hno ⟨h1, h2, h3, h4 rfl⟩

theorem timeShaped_iff {time h m s : List Char} (hs : time.splitOn ':' = [h, m, s]) :
    TimeShaped time ↔ IsI64 h ∧ IsI64 m ∧ IsI64 (((splitOnce '.' s).map Prod.fst).getD s) := by
  constructor
  · rintro ⟨h', m', s', hs', hint⟩
    simp only [hs, List.cons.injEq, and_true] at hs'
    obtain ⟨rfl, rfl, rfl⟩ := hs'
    exact hint
  · intro hint
    exact ⟨h, m, s, hs, hint⟩

/-- What follows the time zone is refused for the shape of the time only. -/
theorem parseTime_eq_none_iff (year month day tz : ℤ) (time : List Char) :
    parseTime year month day tz time = .ok none ↔ ¬ TimeShaped time := by
  rw [parseTime]
  split
  · rename_i h mi secStr hs
    rw [timeShaped_iff hs]
    have htotal : ∀ hour minute sec frac : ℤ, (andThen (daysFromCivil year month day) fun days =>
        totalSeconds days hour minute sec frac tz) ≠ .ok none := by
      intro hour minute sec frac hnone
      rcases (andThen_eq_none_iff _ _).1 hnone with h | ⟨days, -, h⟩
      · exact daysFromCivil_ne_none _ _ _ h
      · exact totalSeconds_ne_none _ _ _ _ _ _ h
    simp only [andThen_parseI64_eq_none_iff, andThen_eq_none_iff (parseSeconds secStr), htotal,
      and_false, exists_false, or_false, parseSeconds_eq_none_iff]
    by_cases hh : IsI64 h
    · by_cases hm : IsI64 mi
      · obtain ⟨n, hn⟩ := (isI64_iff h).1 hh
        obtain ⟨k, hk⟩ := (isI64_iff mi).1 hm
        simp [hh, hm, hn, hk]
      · obtain ⟨n, hn⟩ := (isI64_iff h).1 hh
        simp [hm, hn]
    · simp [hh]
  · rename_i hs
    refine iff_of_true rfl ?_
    rintro ⟨h, m, s, hs', -⟩
    exact hs h m s hs'

/-- So is what follows the `T`, where the time zone is the last thing looked at or the first. -/
theorem parseRest_eq_none_iff (year month day : ℤ) (rest : List Char) :
    (andThen (splitTz rest) fun p => parseTime year month day p.2 p.1) = .ok none ↔
      ¬ ∃ time zone, findTz 0 rest = some (time, zone) ∧ ZoneShaped zone ∧
        (TimeShaped time ∨ ZoneOverflows zone) := by
  rw [splitTz]
  cases hf : findTz 0 rest with
  | none => simp [andThen]
  | some p =>
      obtain ⟨time, zone⟩ := p
      obtain ⟨c, z, rfl, hc⟩ := of_findTz hf
      have hsome : (∃ time' zone', some (time, c :: z) = some (time', zone') ∧ ZoneShaped zone' ∧
          (TimeShaped time' ∨ ZoneOverflows zone')) ↔
            ZoneShaped (c :: z) ∧ (TimeShaped time ∨ ZoneOverflows (c :: z)) := by
        constructor
        · rintro ⟨time', zone', he, hz⟩
          obtain ⟨rfl, rfl⟩ := Prod.mk.inj (Option.some.inj he)
          exact hz
        · exact fun hz => ⟨time, c :: z, rfl, hz⟩
      rw [hsome, andThen_ok_some]
      by_cases hz : ZoneShaped (c :: z)
      · rcases parseTz_of_shaped hz with ⟨hno, offset, ho⟩ | ⟨hover, ho⟩
        · simp only [ho, andThen_ok_some, hz, hno, true_and, or_false]
          exact parseTime_eq_none_iff year month day offset time
        · simp [ho, andThen, hz, hover]
      · have ho := (parseTz_eq_none_iff hc).2 hz
        simp [ho, andThen, hz]

/-- The parser refuses exactly what is not shaped like a timestamp. -/
theorem parseRfc3339_eq_none_iff (ts : List Char) : parseRfc3339 ts = .ok none ↔ ¬ Shaped ts := by
  rw [parseRfc3339]
  cases hT : splitOnce 'T' ts with
  | none =>
      refine iff_of_true rfl ?_
      rintro ⟨date, rest, time, zone, h, -⟩
      rw [hT] at h
      cases h
  | some p =>
      obtain ⟨date, rest⟩ := p
      have hshape : Shaped ts ↔ DateShaped date ∧ ∃ time zone, findTz 0 rest = some (time, zone) ∧
          ZoneShaped zone ∧ (TimeShaped time ∨ ZoneOverflows zone) := by
        constructor
        · rintro ⟨date', rest', time, zone, h, hd, hf, hz⟩
          obtain ⟨rfl, rfl⟩ := Prod.mk.inj (Option.some.inj (hT.symm.trans h))
          exact ⟨hd, time, zone, hf, hz⟩
        · rintro ⟨hd, time, zone, hf, hz⟩
          exact ⟨date, rest, time, zone, hT, hd, hf, hz⟩
      rw [hshape, andThen_ok_some]
      simp only
      split
      · rename_i y mo d hs
        have hdate : DateShaped date ↔ IsI64 y ∧ IsI64 mo ∧ IsI64 d := by
          constructor
          · rintro ⟨y', mo', d', hs', hint⟩
            simp only [hs, List.cons.injEq, and_true] at hs'
            obtain ⟨rfl, rfl, rfl⟩ := hs'
            exact hint
          · exact fun hint => ⟨y, mo, d, hs, hint⟩
        rw [hdate]
        simp only [andThen_parseI64_eq_none_iff, parseRest_eq_none_iff]
        by_cases hy : IsI64 y
        · by_cases hm : IsI64 mo
          · by_cases hd : IsI64 d
            · obtain ⟨a, ha⟩ := (isI64_iff y).1 hy
              obtain ⟨b, hb⟩ := (isI64_iff mo).1 hm
              obtain ⟨c, hc⟩ := (isI64_iff d).1 hd
              simp [hy, hm, hd, ha, hb, hc]
            · obtain ⟨a, ha⟩ := (isI64_iff y).1 hy
              obtain ⟨b, hb⟩ := (isI64_iff mo).1 hm
              simp [hd, ha, hb]
          · obtain ⟨a, ha⟩ := (isI64_iff y).1 hy
            simp [hm, ha]
        · simp [hy]
      · rename_i hs
        refine iff_of_true rfl ?_
        rintro ⟨⟨y, mo, d, hs', -⟩, -⟩
        exact hs y mo d hs'

/-! ### The parser and the standard -/

/-- **When `parse_rfc3339` follows the standard**: on the valid timestamps, and on what does not
have the loose shape of one. -/
theorem meetsRfc3339_iff (ts : List Char) : MeetsRfc3339 ts ↔ IsTimestamp ts ∨ ¬ Shaped ts := by
  have hvalid : ∀ t : DateTime, t.Valid → ts = t.text → parseRfc3339 ts = .ok (some t.instant) := by
    rintro t ht rfl
    have hyear := ht.year
    exact parseRfc3339_text t ht.toInRange (by omega)
  constructor
  · rintro ⟨-, hrefuse⟩
    by_cases hts : IsTimestamp ts
    · exact .inl hts
    · exact .inr ((parseRfc3339_eq_none_iff ts).1 (hrefuse hts))
  · rintro (hts | hshape)
    · exact ⟨hvalid, fun hno => absurd hts hno⟩
    · exact ⟨hvalid, fun _ => (parseRfc3339_eq_none_iff ts).2 hshape⟩

def thirtiethOfFebruary : List Char := "2024-02-30T12:00:00Z".toList

/-- The ninth byte of the fraction is inside of its last character. -/
def accentedFraction : List Char := "2024-01-01T00:00:00.12345678éZ".toList

/-- A day that its month does not have becomes a day of the next month, and a fraction with a
letter ends the program. -/
theorem lenientTexts_not_met :
    ¬ MeetsRfc3339 thirtiethOfFebruary ∧ ¬ MeetsRfc3339 accentedFraction := by
  constructor
  · rintro ⟨-, hrefuse⟩
    have hparse : parseRfc3339 thirtiethOfFebruary = .ok (some 1709294400) := by decide +kernel
    rw [hparse] at hrefuse
    refine absurd (hrefuse ?_) (by simp)
    rintro ⟨t, ht, htext⟩
    have hdate := t.date_of_text
    rw [← htext, show (splitOnce 'T' thirtiethOfFebruary).map
      (fun p => (p.1.splitOn '-').map digitsVal) = some [2024, 2, 30] by decide +kernel] at hdate
    have hday := ht.date
    simp only [Option.some.injEq, List.cons.injEq, and_true] at hdate
    rw [← hdate.1, ← hdate.2.1, ← hdate.2.2] at hday
    exact absurd hday (by decide)
  · rintro ⟨-, hrefuse⟩
    have hparse : parseRfc3339 accentedFraction = .error .charBoundary := by decide +kernel
    rw [hparse] at hrefuse
    refine absurd (hrefuse ?_) (by simp)
    rintro ⟨t, ht, htext⟩
    have hyear := ht.year
    rw [htext, parseRfc3339_text t ht.toInRange (by omega)] at hparse
    cases hparse

end Unitpm.Format
