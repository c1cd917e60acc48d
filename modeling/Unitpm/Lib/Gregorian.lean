import Mathlib.Data.Int.Order.Basic
import Mathlib.Tactic.IntervalCases

/-! # The Gregorian calendar

Dates of the proleptic calendar, with the number of the day they name (`dayNumber`, 0 on
1970-01-01).  That this is the count of days is what `dayNumber_next` says: from each date to the
next it grows by one.

The usual algorithm for the date of a day works with years that begin in March and eras of 400 of
them: `civil`, and `eraDays` for the way back.  `civil_spec` says that it is right for every day,
and `eraDays_eq` for every date. -/

namespace Gregorian

/-- Every fourth year, without the centuries that are not divisible by 400. -/
def leap (y : ℤ) : Prop := 4 ∣ y ∧ (¬ 100 ∣ y ∨ 400 ∣ y)

instance (y : ℤ) : Decidable (leap y) := inferInstanceAs (Decidable (_ ∧ _))

/-- The days of a month. -/
def daysInMonth (y m : ℤ) : ℤ :=
  if m = 2 then if leap y then 29 else 28
  else if m = 4 ∨ m = 6 ∨ m = 9 ∨ m = 11 then 30
  else 31

/-- The year, month and day are a date. -/
structure ValidDate (y m d : ℤ) : Prop where
  month_pos : 1 ≤ m
  month_le : m ≤ 12
  day_pos : 1 ≤ d
  day_le : d ≤ daysInMonth y m

theorem validDate_iff (y m d : ℤ) :
    ValidDate y m d ↔ 1 ≤ m ∧ m ≤ 12 ∧ 1 ≤ d ∧ d ≤ daysInMonth y m :=
  ⟨fun h => ⟨h.1, h.2, h.3, h.4⟩, fun h => ⟨h.1, h.2.1, h.2.2.1, h.2.2.2⟩⟩

instance (y m d : ℤ) : Decidable (ValidDate y m d) :=
  decidable_of_iff _ (validDate_iff y m d).symm

theorem ValidDate.day_le_31 {y m d : ℤ} (h : ValidDate y m d) : d ≤ 31 := by
  have hle := h.day_le
  unfold daysInMonth at hle
  split_ifs at hle <;> omega

/-- The date after a date. -/
def next (y m d : ℤ) : ℤ × ℤ × ℤ :=
  if d < daysInMonth y m then (y, m, d + 1)
  else if m < 12 then (y, m + 1, 1)
  else (y + 1, 1, 1)

/-- The leap years from the year 1 on, up to and with a year. -/
def leapsUpTo (y : ℤ) : ℤ := y / 4 - y / 100 + y / 400

/-- The days from 1970-01-01 to the first day of a year. -/
def daysBeforeYear (y : ℤ) : ℤ := 365 * (y - 1970) + leapsUpTo (y - 1) - leapsUpTo 1969

/-- The days of a year before a month. -/
def daysBeforeMonth (y m : ℤ) : ℤ :=
  [0, 31, 59, 90, 120, 151, 181, 212, 243, 273, 304, 334].getD (m - 1).toNat 0 +
    if 2 < m ∧ leap y then 1 else 0

/-- The days from 1970-01-01 to a date. -/
def dayNumber (y m d : ℤ) : ℤ := daysBeforeYear y + daysBeforeMonth y m + (d - 1)

/-! ### The count of days -/

theorem leapsUpTo_succ (y : ℤ) : leapsUpTo y = leapsUpTo (y - 1) + if leap y then 1 else 0 := by
  unfold leapsUpTo leap
  split_ifs with h <;> omega

theorem daysBeforeYear_succ (y : ℤ) :
    daysBeforeYear (y + 1) = daysBeforeYear y + 365 + if leap y then 1 else 0 := by
  have h := leapsUpTo_succ y
  unfold daysBeforeYear
  rw [Int.add_sub_cancel, h]
  omega

theorem daysBeforeMonth_succ {y m : ℤ} (h1 : 1 ≤ m) (h12 : m < 12) :
    daysBeforeMonth y (m + 1) = daysBeforeMonth y m + daysInMonth y m := by
  unfold daysBeforeMonth daysInMonth
  by_cases hl : leap y <;> interval_cases m <;> simp [hl]

/-- From each date to the next the number of the day grows by one. -/
theorem dayNumber_next {y m d : ℤ} (h : ValidDate y m d) :
    dayNumber (next y m d).1 (next y m d).2.1 (next y m d).2.2 = dayNumber y m d + 1 := by
  obtain ⟨h1, h12, hd, hle⟩ := h
  unfold next
  split_ifs with hday hmonth
  · simp only [dayNumber]
    omega
  · have hs := daysBeforeMonth_succ (y := y) h1 hmonth
    simp only [dayNumber]
    omega
  · obtain rfl : m = 12 := by omega
    have hy := daysBeforeYear_succ y
    have hdec : daysBeforeMonth y 12 + daysInMonth y 12 = 365 + if leap y then 1 else 0 := by
      unfold daysBeforeMonth daysInMonth
      by_cases hl : leap y <;> simp [hl]
    have hjan : daysBeforeMonth (y + 1) 1 = 0 := by
      unfold daysBeforeMonth
      simp
    simp only [dayNumber]
    omega

theorem dayNumber_epoch : dayNumber 1970 1 1 = 0 := by decide

theorem daysBeforeYear_mono {y y' : ℤ} (h : y < y') :
    daysBeforeYear (y + 1) ≤ daysBeforeYear y' := by
  unfold daysBeforeYear leapsUpTo
  omega

theorem daysBeforeMonth_mono {y m m' : ℤ} (h1 : 1 ≤ m) (h : m < m') (h12 : m' ≤ 12) :
    daysBeforeMonth y m + daysInMonth y m ≤ daysBeforeMonth y m' := by
  have h11 : m ≤ 11 := by omega
  unfold daysBeforeMonth daysInMonth
  by_cases hl : leap y <;> interval_cases m <;> interval_cases m' <;> simp [hl]

theorem ValidDate.day_of_year {y m d : ℤ} (h : ValidDate y m d) :
    daysBeforeYear y ≤ dayNumber y m d ∧ dayNumber y m d < daysBeforeYear (y + 1) := by
  obtain ⟨h1, h12, hd, hle⟩ := h
  have hs := daysBeforeYear_succ y
  have hmonth : 0 ≤ daysBeforeMonth y m ∧
      daysBeforeMonth y m + daysInMonth y m ≤ 365 + if leap y then 1 else 0 := by
    unfold daysBeforeMonth daysInMonth
    by_cases hl : leap y <;> interval_cases m <;> simp [hl]
  unfold dayNumber
  omega

theorem ValidDate.year_lt_iff {y m d : ℤ} (h : ValidDate y m d) (y' : ℤ) :
    y < y' ↔ dayNumber y m d < daysBeforeYear y' := by
  obtain ⟨h0, h1⟩ := h.day_of_year
  constructor
  · intro hlt
    have hmono := daysBeforeYear_mono hlt
    omega
  · intro hlt
    by_contra hge
    rcases Int.le_iff_lt_or_eq.1 (Int.not_lt.1 hge) with hgt | rfl
    · have hmono := daysBeforeYear_mono hgt
      have hsucc := daysBeforeYear_succ y'
      split_ifs at hsucc <;> omega
    · omega

theorem dayNumber_lt_of_year_lt {y y' : ℤ} (h : y < y') (m d : ℤ) :
    dayNumber y m d < dayNumber y' m d := by
  have hsucc := daysBeforeYear_succ y
  have hmono := daysBeforeYear_mono h
  have hmonth : daysBeforeMonth y m ≤ daysBeforeMonth y' m + 1 := by
    unfold daysBeforeMonth
    split_ifs <;> omega
  unfold dayNumber
  split_ifs at hsucc <;> omega

/-- No two dates name one day. -/
theorem dayNumber_injective {y m d y' m' d' : ℤ} (h : ValidDate y m d) (h' : ValidDate y' m' d')
    (he : dayNumber y m d = dayNumber y' m' d') : y = y' ∧ m = m' ∧ d = d' := by
  obtain ⟨hy0, hy1⟩ := h.day_of_year
  obtain ⟨hy0', hy1'⟩ := h'.day_of_year
  have hy : y = y' := by
    rcases lt_trichotomy y y' with hlt | heq | hgt
    · have := daysBeforeYear_mono hlt
      omega
    · exact heq
    · have := daysBeforeYear_mono hgt
      omega
  subst hy
  obtain ⟨h1, h12, hd, hle⟩ := h
  obtain ⟨h1', h12', hd', hle'⟩ := h'
  unfold dayNumber at he
  have hm : m = m' := by
    rcases lt_trichotomy m m' with hlt | heq | hgt
    · have := daysBeforeMonth_mono (y := y) h1 hlt h12'
      omega
    · exact heq
    · have := daysBeforeMonth_mono (y := y) h1' hgt h12
      omega
  subst hm
  exact ⟨rfl, rfl, by omega⟩

/-! ### Years from March to March -/

/-- The day of a date by eras of 400 years that begin in March. -/
def eraDays (y m d : ℤ) : ℤ :=
  let y := if m ≤ 2 then y - 1 else y
  let era := y / 400
  let yoe := y - era * 400
  let doy := (153 * (if 2 < m then m - 3 else m + 9) + 2) / 5 + d - 1
  let doe := yoe * 365 + yoe / 4 - yoe / 100 + doy
  era * 146097 + doe - 719468

/-- The date of a day by eras of 400 years that begin in March. -/
def civil (days : ℤ) : ℤ × ℤ × ℤ :=
  let z := days + 719468
  let era := z / 146097
  let doe := z - era * 146097
  let yoe := (doe - doe / 1460 + doe / 36524 - doe / 146096) / 365
  let y := yoe + era * 400
  let doy := doe - (365 * yoe + yoe / 4 - yoe / 100)
  let mp := (5 * doy + 2) / 153
  let d := doy - (153 * mp + 2) / 5 + 1
  let m := if mp < 10 then mp + 3 else mp - 9
  (if m ≤ 2 then y + 1 else y, m, d)

theorem daysBeforeYear_eq (y : ℤ) :
    daysBeforeYear (y + 1) =
      y / 400 * 146097 + ((y - y / 400 * 400) * 365 + (y - y / 400 * 400) / 4 -
        (y - y / 400 * 400) / 100) + 306 - 719468 := by
  unfold daysBeforeYear leapsUpTo
  rw [Int.add_sub_cancel]
  omega

theorem eraDays_eq {y m : ℤ} (h1 : 1 ≤ m) (h12 : m ≤ 12) (d : ℤ) :
    eraDays y m d = dayNumber y m d := by
  unfold eraDays dayNumber
  by_cases hm : m ≤ 2
  · have hy := daysBeforeYear_eq (y - 1)
    rw [Int.sub_add_cancel] at hy
    simp only [if_pos hm, if_neg (not_lt.2 hm), hy]
    unfold daysBeforeMonth
    interval_cases m <;> simp <;> omega
  · have hm' : 2 < m := not_le.1 hm
    have hy := daysBeforeYear_eq y
    have hs := daysBeforeYear_succ y
    simp only [if_neg hm, if_pos hm']
    unfold daysBeforeMonth
    by_cases hl : leap y <;> simp only [hl, and_true, and_false, if_true, if_false] at hs ⊢ <;>
      interval_cases m <;> simp <;> omega

/-- Truncating division after a shift of the negative numbers rounds down. -/
theorem tdiv_shifted {k : ℤ} (hk : 0 < k) (z : ℤ) :
    (if 0 ≤ z then z else z - (k - 1)).tdiv k = z / k := by
  split_ifs with h
  · exact Int.tdiv_eq_ediv_of_nonneg h
  · have hneg : ¬ 0 ≤ z - (k - 1) := by omega
    have hdiv := Int.mul_ediv_add_emod (z - (k - 1)) k
    have hr0 := Int.emod_nonneg (z - (k - 1)) hk.ne'
    have hr1 := Int.emod_lt_of_pos (z - (k - 1)) hk
    rw [Int.tdiv_eq_ediv, Int.sign_eq_one_of_pos hk, eq_comm, Int.ediv_eq_iff_of_pos hk]
    generalize (z - (k - 1)) / k = q at hdiv ⊢
    have hcomm : k * q = q * k := Int.mul_comm k q
    have hsame : (q + 0) * k = q * k := by rw [Int.add_zero]
    split_ifs with hd
    · have hzero : (z - (k - 1)) % k = 0 := Int.emod_eq_zero_of_dvd (hd.resolve_left hneg)
      omega
    · have hpos : (z - (k - 1)) % k ≠ 0 := fun h0 => hd (.inr (Int.dvd_of_emod_eq_zero h0))
      have hsucc : (q + 1) * k = q * k + k := by rw [Int.add_mul, Int.one_mul]
      omega

/-- The year of an era that a day is in. -/
def yearOfEra (doe : ℤ) : ℤ := (doe - doe / 1460 + doe / 36524 - doe / 146096) / 365

theorem yearOfEra_bounds {doe : ℤ} (h0 : 0 ≤ doe) (h1 : doe < 146097) :
    0 ≤ yearOfEra doe ∧ yearOfEra doe ≤ 399 := by
  unfold yearOfEra
  omega

/-- The day of a century of an era, and the year of the century that it is in: either the leap days
before it have all been counted, or it is in a year that ends with one. -/
theorem yearOfEra_century {c r : ℤ} (hc0 : 0 ≤ c) (hc : c ≤ 3) (h0 : 0 ≤ r) (h1 : r < 36524) :
    ∃ q s, yearOfEra (36524 * c + r) = 100 * c + q ∧ 0 ≤ q ∧ q ≤ 99 ∧ 0 ≤ s ∧ s ≤ 364 ∧
      (r = 365 * q + q / 4 + s ∨ r = 365 * q + q / 4 + s + 1 ∧ q % 4 = 3) := by
  have hdiv : (36524 * c + r) / 1460 = 25 * c + (24 * c + r) / 1460 := by omega
  have hcent : (36524 * c + r) / 36524 = c := by omega
  have hera : (36524 * c + r) / 146096 = 0 := by omega
  unfold yearOfEra
  rw [hdiv, hcent, hera]
  generalize hk : (24 * c + r) / 1460 = k
  generalize hq : (r - k) / 365 = q
  have hyear : (36524 * c + r - (25 * c + k) + c - 0) / 365 = 100 * c + q := by omega
  refine ⟨q, r - k - 365 * q, hyear, by omega, by omega, by omega, by omega, ?_⟩
  have hleaps : k = q / 4 ∨ k = q / 4 + 1 ∧ q % 4 = 3 := by omega
  omega

/-- The day is one of 366 of its year, and of 365 if the February in it has 28. -/
theorem dayOfYear_spec {doe yoe : ℤ} (h0 : 0 ≤ doe) (h1 : doe < 146097) (hy : yoe = yearOfEra doe) :
    (0 ≤ doe - (365 * yoe + yoe / 4 - yoe / 100) ∧
        doe - (365 * yoe + yoe / 4 - yoe / 100) ≤ 365) ∧
      (doe - (365 * yoe + yoe / 4 - yoe / 100) = 365 → leap (yoe + 1)) := by
  -- the last day of an era is one more than its last century has
  by_cases hlast : doe = 146096
  · subst hlast
    rw [hy]
    decide
  · obtain ⟨c, r, hc0, hc, hr0, hr, rfl⟩ : ∃ c r, 0 ≤ c ∧ c ≤ 3 ∧ 0 ≤ r ∧ r < 36524 ∧
        doe = 36524 * c + r := ⟨doe / 36524, doe % 36524, by omega⟩
    obtain ⟨q, s, hyear, hq0, hq, hs0, hs, hr'⟩ := yearOfEra_century hc0 hc hr0 hr
    rw [hyear] at hy
    have hcent : yoe / 100 = c := by omega
    have hfour : yoe / 4 = 25 * c + q / 4 := by omega
    have hdoy : 36524 * c + r - (365 * yoe + yoe / 4 - yoe / 100) = r - 365 * q - q / 4 := by
      omega
    rw [hdoy]
    unfold leap
    omega
theorem leap_add_era (y era : ℤ) : leap (y + era * 400) ↔ leap y := by
  unfold leap
  omega

/-- Month and day of a day of the year that begins in March. -/
theorem validDate_march {y doy mp : ℤ} (h0 : 0 ≤ doy) (h1 : doy ≤ 365)
    (hleap : doy = 365 → leap (y + 1)) (hmp : (5 * doy + 2) / 153 = mp) :
    ValidDate (if (if mp < 10 then mp + 3 else mp - 9) ≤ 2 then y + 1 else y)
      (if mp < 10 then mp + 3 else mp - 9) (doy - (153 * mp + 2) / 5 + 1) := by
  have hmp0 : 0 ≤ mp := by omega
  have hmp11 : mp ≤ 11 := by omega
  by_cases hfeb : mp = 11
  · subst hfeb
    refine ⟨by decide, by decide, by omega, ?_⟩
    have hday : doy ≤ 364 ∨ leap (y + 1) := by
      rcases Int.lt_or_eq_of_le h1 with hlt | heq
      · exact .inl (by omega)
      · exact .inr (hleap heq)
    simp only [daysInMonth]
    rcases hday with hday | hday
    · norm_num
      split_ifs <;> omega
    · norm_num [hday]
      omega
  · interval_cases mp <;> simp_all [validDate_iff, daysInMonth] <;> omega

theorem eraDays_march {y doy mp : ℤ} (hmp0 : 0 ≤ mp) (hmp11 : mp ≤ 11) :
    eraDays (if (if mp < 10 then mp + 3 else mp - 9) ≤ 2 then y + 1 else y)
        (if mp < 10 then mp + 3 else mp - 9) (doy - (153 * mp + 2) / 5 + 1) =
      y / 400 * 146097 + ((y - y / 400 * 400) * 365 + (y - y / 400 * 400) / 4 -
        (y - y / 400 * 400) / 100 + doy) - 719468 := by
  by_cases h : mp < 10
  · have hm : ¬ mp + 3 ≤ 2 := by omega
    have hm' : 2 < mp + 3 := by omega
    simp only [eraDays, if_pos h, if_neg hm, if_pos hm']
    omega
  · have hm : mp - 9 ≤ 2 := by omega
    have hm' : ¬ 2 < mp - 9 := by omega
    simp only [eraDays, if_neg h, if_pos hm, if_neg hm', Int.add_sub_cancel]
    omega

/-- The algorithm finds the date of every day. -/
theorem civil_spec (days : ℤ) :
    ValidDate (civil days).1 (civil days).2.1 (civil days).2.2 ∧
      dayNumber (civil days).1 (civil days).2.1 (civil days).2.2 = days := by
  simp only [civil]
  generalize hera : (days + 719468) / 146097 = era
  generalize hdoe : days + 719468 - era * 146097 = doe
  generalize hyoe : (doe - doe / 1460 + doe / 36524 - doe / 146096) / 365 = yoe
  have hd0 : 0 ≤ doe := by omega
  have hd1 : doe < 146097 := by omega
  have hyb := yearOfEra_bounds hd0 hd1
  obtain ⟨hdb, hleap⟩ := dayOfYear_spec hd0 hd1 hyoe.symm
  rw [yearOfEra, hyoe] at hyb
  generalize hdoy : doe - (365 * yoe + yoe / 4 - yoe / 100) = doy at hdb hleap ⊢
  generalize hmp : (5 * doy + 2) / 153 = mp
  have hmp0 : 0 ≤ mp := by omega
  have hmp11 : mp ≤ 11 := by omega
  have hvalid : ValidDate (if (if mp < 10 then mp + 3 else mp - 9) ≤ 2
        then yoe + era * 400 + 1 else yoe + era * 400)
      (if mp < 10 then mp + 3 else mp - 9) (doy - (153 * mp + 2) / 5 + 1) := by
    refine validDate_march hdb.1 hdb.2 (fun h => ?_) hmp
    have hyear : yoe + era * 400 + 1 = yoe + 1 + era * 400 := by omega
    rw [hyear, leap_add_era]
    exact hleap h
  refine ⟨hvalid, ?_⟩
  have hyear : (yoe + era * 400) / 400 = era := by omega
  have hyoe' : yoe + era * 400 - era * 400 = yoe := by omega
  rw [← eraDays_eq hvalid.month_pos hvalid.month_le, eraDays_march hmp0 hmp11, hyear, hyoe']
  omega

theorem civil_eq_of_dayNumber {y m d days : ℤ} (h : ValidDate y m d) (hd : dayNumber y m d = days) :
    civil days = (y, m, d) := by
  obtain ⟨hvalid, hday⟩ := civil_spec days
  obtain ⟨hy, hm, hd'⟩ := dayNumber_injective hvalid h (hday.trans hd.symm)
  rw [← hy, ← hm, ← hd']

end Gregorian
