import Unitpm.LogTime

/-! # Six copies of one calendar

The conversion of a day to a date is written out four times in the code base, and that of a date to
a day twice, with different types.  The ones of the log files are `daysToYmd` and `daysFromCivil` of
`Unitpm.LogTime`; the others are here.

`civil_functions_agree`: as long as the year is an `i32`, all of them agree with the calendar.  The
day of a date is computed here with the overflow checks of the source, as the numbers come from a
text. -/

namespace Unitpm

open Gregorian

/-! ### Days to dates -/

/-- `x as i32`, of an `i64`. -/
def wrapI32 (x : ℤ) : ℤ := Int.bmod x (2 ^ 32)

/-- `unix_to_ymdhms` of `cli::commands::start::time`. -/
def Start.unixToYmdhms (secs : ℤ) : ℤ × ℤ × ℤ × ℤ × ℤ × ℤ :=
  let days := secs / 86400
  let secsOfDay := secs % 86400
  let hour := secsOfDay / 3600
  let secsOfDay := secsOfDay % 3600
  let minute := secsOfDay / 60
  let second := secsOfDay % 60
  let z := days + 719468
  let era := (if 0 ≤ z then z else z - 146096).tdiv 146097
  let doe := z - era * 146097
  let yoe := (doe - doe / 1460 + doe / 36524 - doe / 146096) / 365
  let y := yoe + era * 400
  let doy := doe - (365 * yoe + yoe / 4 - yoe / 100)
  let mp := (5 * doy + 2) / 153
  let d := doy - (153 * mp + 2) / 5 + 1
  let m := if mp < 10 then mp + 3 else mp - 9
  let year := wrapI32 (if m ≤ 2 then y + 1 else y)
  (year, m, d, hour, minute, second)

/-- `civil_from_days` of `cli::commands::apply`. -/
def Apply.civilFromDays (daysSinceEpoch : ℤ) : ℤ × ℤ × ℤ :=
  let z := daysSinceEpoch + 719468
  let era := (if 0 ≤ z then z else z - 146096).tdiv 146097
  let doe := z - era * 146097
  let yoe := (doe - doe / 1460 + doe / 36524 - doe / 146096) / 365
  let y := yoe + era * 400
  let doy := doe - (365 * yoe + yoe / 4 - yoe / 100)
  let mp := (5 * doy + 2) / 153
  let d := doy - (153 * mp + 2) / 5 + 1
  let m := if mp < 10 then mp + 3 else mp - 9
  let y := if m ≤ 2 then y + 1 else y
  (wrapI32 y, m, d)

/-- `epoch_to_civil` of `daemon::audit::audit`. -/
def Audit.epochToCivil (secs : ℤ) : ℤ × ℤ × ℤ × ℤ × ℤ × ℤ :=
  let days := secs / 86400
  let secsOfDay := secs % 86400
  let hour := secsOfDay / 3600
  let minute := secsOfDay / 60 % 60
  let second := secsOfDay % 60
  let z := days + 719468
  let era := (if 0 ≤ z then z else z - 146096).tdiv 146097
  let doe := z - era * 146097
  let yoe := (doe - doe / 1460 + doe / 36524 - doe / 146096) / 365
  let y := yoe + era * 400
  let doy := doe - (365 * yoe + yoe / 4 - yoe / 100)
  let mp := (5 * doy + 2) / 153
  let d := doy - (153 * mp + 2) / 5 + 1
  let m := if mp < 10 then mp + 3 else mp - 9
  let y := if m ≤ 2 then y + 1 else y
  (wrapI32 y, m, d, hour, minute, second)

/-! ### Dates to days -/

namespace Format

/-- What ends a computation without a result. -/
inductive Trap where
  | overflow
  | charBoundary
deriving DecidableEq

/-- The result of an operation on `i64`. -/
def i64 (x : ℤ) : Except Trap ℤ :=
  if -2 ^ 63 ≤ x ∧ x < 2 ^ 63 then .ok x else .error .overflow

/-- The result of an operation on `u64`. -/
def u64 (x : ℤ) : Except Trap ℤ := if 0 ≤ x ∧ x < 2 ^ 64 then .ok x else .error .overflow

/-- `x as u64`. -/
def asU64 (x : ℤ) : ℤ := x % 2 ^ 64

/-- `x as i64`. -/
def asI64 (x : ℤ) : ℤ := Int.bmod x (2 ^ 64)

/-- `days_from_civil` of `cli::format::time`. -/
def daysFromCivil (y m d : ℤ) : Except Trap (Option ℤ) := do
  let y ← i64 (if m ≤ 2 then y - 1 else y)
  let shifted ← i64 (if 0 ≤ y then y else y - 399)
  let era := shifted.tdiv 400
  let first ← i64 (era * 400)
  let yoe := asU64 (← i64 (y - first))
  let mu ← i64 (if 2 < m then m - 3 else m + 9)
  let scaled ← i64 (153 * mu)
  let scaled ← i64 (scaled + 2)
  let doy ← i64 (scaled.tdiv 5 + d)
  let doy ← i64 (doy - 1)
  let doe ← u64 (yoe * 365)
  let doe ← u64 (doe + yoe / 4)
  let doe ← u64 (doe - yoe / 100)
  let doe ← u64 (doe + asU64 doy)
  let days ← i64 (era * 146097)
  let days ← i64 (days + asI64 doe)
  let days ← i64 (days - 719468)
  return some days

end Format

/-! ### The copies and the calendar -/

theorem wrapI32_eq {x : ℤ} (h0 : -2 ^ 31 ≤ x) (h1 : x < 2 ^ 31) : wrapI32 x = x :=
  Int.bmod_eq_of_le (by omega) (by omega)

theorem Apply.civilFromDays_eq (days : ℤ) :
    Apply.civilFromDays days =
      (wrapI32 (civil days).1, (civil days).2.1, (civil days).2.2) := by
  have h := tdiv_shifted (k := 146097) (by decide) (days + 719468)
  norm_num at h
  simp only [Apply.civilFromDays, h, civil]

theorem Start.unixToYmdhms_eq (secs : ℤ) :
    Start.unixToYmdhms secs =
      (wrapI32 (civil (secs / 86400)).1, (civil (secs / 86400)).2.1, (civil (secs / 86400)).2.2,
        secs % 86400 / 3600, secs % 86400 / 60 % 60, secs % 86400 % 60) := by
  have h := tdiv_shifted (k := 146097) (by decide) (secs / 86400 + 719468)
  norm_num at h
  simp only [Start.unixToYmdhms, h, civil, Prod.mk.injEq, true_and]
  omega

theorem Audit.epochToCivil_eq (secs : ℤ) :
    Audit.epochToCivil secs =
      (wrapI32 (civil (secs / 86400)).1, (civil (secs / 86400)).2.1, (civil (secs / 86400)).2.2,
        secs % 86400 / 3600, secs % 86400 / 60 % 60, secs % 86400 % 60) := by
  have h := tdiv_shifted (k := 146097) (by decide) (secs / 86400 + 719468)
  norm_num at h
  simp only [Audit.epochToCivil, h, civil]

namespace Format

theorem i64_eq {x : ℤ} (h0 : -2 ^ 63 ≤ x) (h1 : x < 2 ^ 63) : i64 x = .ok x := if_pos ⟨h0, h1⟩

theorem u64_eq {x : ℤ} (h0 : 0 ≤ x) (h1 : x < 2 ^ 64) : u64 x = .ok x := if_pos ⟨h0, h1⟩

theorem asU64_eq {x : ℤ} (h0 : 0 ≤ x) (h1 : x < 2 ^ 64) : asU64 x = x := Int.emod_eq_of_lt h0 h1

theorem asI64_eq {x : ℤ} (h0 : -2 ^ 63 ≤ x) (h1 : x < 2 ^ 63) : asI64 x = x :=
  Int.bmod_eq_of_le (by omega) (by omega)

/-- Of a month and a day there is no overflow. -/
theorem daysFromCivil_eq {y m d : ℤ} (h0 : -2 ^ 32 ≤ y) (h1 : y ≤ 2 ^ 32) (hm1 : 1 ≤ m)
    (hm12 : m ≤ 12) (hd1 : 1 ≤ d) (hd31 : d ≤ 31) :
    daysFromCivil y m d = .ok (some (dayNumber y m d)) := by
  rw [← eraDays_eq hm1 hm12]
  unfold eraDays
  -- the year that begins in March, its era and its place in it
  generalize hy' : (if m ≤ 2 then y - 1 else y) = y'
  have hb : -2 ^ 32 - 1 ≤ y' ∧ y' ≤ 2 ^ 32 := by
    split_ifs at hy' <;> omega
  have hera := tdiv_shifted (k := 400) (by decide) y'
  norm_num at hera
  generalize hs : (if 0 ≤ y' then y' else y' - 399) = shifted at hera
  have hsb : -2 ^ 33 ≤ shifted ∧ shifted ≤ 2 ^ 33 := by
    split_ifs at hs <;> omega
  generalize hmu : (if 2 < m then m - 3 else m + 9) = mu
  have hmub : 0 ≤ mu ∧ mu ≤ 11 := by
    split_ifs at hmu <;> omega
  generalize he : y' / 400 = era at hera ⊢
  have hyoe : 0 ≤ y' - era * 400 ∧ y' - era * 400 ≤ 399 := by omega
  generalize hyo : y' - era * 400 = yoe at hyoe ⊢
  have hdoy : 0 ≤ (153 * mu + 2) / 5 + d - 1 ∧ (153 * mu + 2) / 5 + d - 1 ≤ 400 := by omega
  simp (disch := omega) only [daysFromCivil, bind, Except.bind, pure, Except.pure, hy', hs, hmu,
    hera, hyo, i64_eq, u64_eq, asU64_eq, asI64_eq, Int.tdiv_eq_ediv_of_nonneg]
  rw [he, hyo]

end Format

/-- **One calendar**: for every day with a year between `-2 ^ 31` and `2 ^ 31`, the four functions
give its date, and the two ways back give the day. -/
theorem civil_functions_agree (days y m d : ℤ) (hdate : ValidDate y m d)
    (hday : dayNumber y m d = days) (hlow : -2 ^ 31 < y) (hhigh : y < 2 ^ 31) :
    Logs.daysToYmd days = (y, m, d) ∧
      Start.unixToYmdhms (days * 86400) = (y, m, d, 0, 0, 0) ∧
      Apply.civilFromDays days = (y, m, d) ∧
      Audit.epochToCivil (days * 86400) = (y, m, d, 0, 0, 0) ∧
      Format.daysFromCivil y m d = .ok (some days) ∧
      Logs.daysFromCivil y m.toNat d.toNat = days := by
  have hcivil := civil_eq_of_dayNumber hdate hday
  have hyear := wrapI32_eq hlow.le hhigh
  have hdiv : days * 86400 / 86400 = days := by omega
  have hmod : days * 86400 % 86400 = 0 := by omega
  have hm : (m.toNat : ℤ) = m := Int.toNat_of_nonneg (by have := hdate.month_pos; omega)
  have hd : (d.toNat : ℤ) = d := Int.toNat_of_nonneg (by have := hdate.day_pos; omega)
  refine ⟨?_, ?_, ?_, ?_, ?_, ?_⟩
  · rw [Logs.daysToYmd_eq, hcivil]
  · rw [Start.unixToYmdhms_eq, hdiv, hmod, hcivil, hyear]
    rfl
  · rw [Apply.civilFromDays_eq, hcivil, hyear]
  · rw [Audit.epochToCivil_eq, hdiv, hmod, hcivil, hyear]
    rfl
  · rw [Format.daysFromCivil_eq (by omega) (by omega) hdate.month_pos hdate.month_le hdate.day_pos
      hdate.day_le_31, hday]
  · rw [Logs.daysFromCivil_eq, hm, hd, eraDays_eq hdate.month_pos hdate.month_le, hday]

/-- The last day of February in the year 0. -/
theorem leap_day_agrees :
    Logs.daysToYmd (-719469) = (0, 2, 29) ∧
      Start.unixToYmdhms (-719469 * 86400) = (0, 2, 29, 0, 0, 0) ∧
      Apply.civilFromDays (-719469) = (0, 2, 29) ∧
      Audit.epochToCivil (-719469 * 86400) = (0, 2, 29, 0, 0, 0) ∧
      Format.daysFromCivil 0 2 29 = .ok (some (-719469)) ∧
      Logs.daysFromCivil 0 2 29 = -719469 :=
  civil_functions_agree (-719469) 0 2 29 (by decide) (by decide) (by decide) (by decide)

end Unitpm
