import Unitpm.Rfc3339
import Unitpm.Process

/-! # The times of creation

Three functions write the `created_at` of a process: `now_rfc3339` of `start`, the one of `apply`,
and `format_iso8601_now` of the daemon, for a process whose spec has none.  `show` reads it with
`parse_rfc3339`.

`createdAt_read_iff`: the two of the command line are read as the time they were written at, from
the epoch up to the year `2 ^ 31`.  The daemon's is never read: it has the seconds where the time of
day is expected. -/

namespace Unitpm

open Rust.Str Utf8 Gregorian Format

/-! ### The writers -/

/-- A reading of the system's clock, in seconds after the epoch. -/
structure Clock where
  secs : ℤ
  fits : -2 ^ 63 ≤ secs ∧ secs < 2 ^ 63

/-- `duration_since(UNIX_EPOCH)` in seconds, and 0 before the epoch. -/
def Clock.sinceEpoch (now : Clock) : ℕ := now.secs.toNat

/-- `format!("{x:0w$}")`. -/
def padSigned (w : ℕ) (x : ℤ) : List Char :=
  if 0 ≤ x then padZero w x.toNat else '-' :: padZero (w - 1) x.natAbs

/-- `{:04}-{:02}-{:02}T{:02}:{:02}:{:02}Z`. -/
def utcText (year month day hour minute second : ℤ) : List Char :=
  padSigned 4 year ++ '-' :: (padSigned 2 month ++ '-' :: (padSigned 2 day ++ 'T' ::
    (padSigned 2 hour ++ ':' :: (padSigned 2 minute ++ ':' :: (padSigned 2 second ++ ['Z'])))))

/-- `now_rfc3339` of `cli::commands::start::time`. -/
def Start.nowRfc3339 (now : Clock) : List Char :=
  let (year, month, day, hour, min, sec) := unixToYmdhms (asI64 now.sinceEpoch)
  utcText year month day hour min sec

/-- `format_rfc3339_utc`. -/
def Apply.formatRfc3339Utc (secs : ℤ) : List Char :=
  let days := secs / 86400
  let secsInDay := secs % 86400
  let (year, month, day) := civilFromDays days
  let hour := secsInDay / 3600
  let minute := secsInDay / 60 % 60
  let second := secsInDay % 60
  utcText year month day hour minute second

/-- `now_rfc3339` of `cli::commands::apply`. -/
def Apply.nowRfc3339 (now : Clock) : List Char := formatRfc3339Utc (asI64 now.sinceEpoch)

/-- `format_iso8601_now`. -/
def Manager.formatIso8601Now (now : Clock) : List Char :=
  "1970-01-01".toList ++ 'T' :: (Nat.toDigits 10 now.sinceEpoch ++ ['Z'])

/-- Who writes a time of creation. -/
inductive CreatedAtWriter where
  | start
  | apply
  | daemon
deriving DecidableEq

def CreatedAtWriter.write : CreatedAtWriter → Clock → List Char
  | start => Start.nowRfc3339
  | apply => Apply.nowRfc3339
  | daemon => Manager.formatIso8601Now

theorem Process.formatIso8601Now_toList (h : Host) (now : Clock) (hnow : now.sinceEpoch = h.now) :
    (Process.formatIso8601Now h).toList = Manager.formatIso8601Now now := by
  have hstem : "1970-01-01T".toList = "1970-01-01".toList ++ ['T'] := by decide +kernel
  have hzone : "Z".toList = ['Z'] := by decide +kernel
  unfold Process.formatIso8601Now Manager.formatIso8601Now
  rw [hnow, String.toList_append, String.toList_append, Nat.toString_eq_repr, Nat.toList_repr,
    hstem, hzone]
  simp only [List.append_assoc, List.cons_append, List.nil_append]

/-! ### The text of the command line -/

theorem padSigned_natCast (w n : ℕ) : padSigned w (n : ℤ) = padZero w n := by
  rw [padSigned, if_pos (Int.natCast_nonneg n), Int.toNat_natCast]

theorem utcText_natCast (y m d h mi s : ℕ) :
    utcText y m d h mi s = DateTime.text ⟨y, m, d, h, mi, s, [], .utc⟩ := by
  simp [utcText, padSigned_natCast, DateTime.text, DateTime.dateText, DateTime.timeText,
    DateTime.fractionText, Zone.text]

theorem parseRfc3339_utcText {y m d h mi s : ℤ} (hy : 0 ≤ y ∧ y < 2 ^ 31) (hm : 1 ≤ m ∧ m ≤ 12)
    (hd : 1 ≤ d ∧ d ≤ 31) (hh : 0 ≤ h ∧ h ≤ 23) (hmi : 0 ≤ mi ∧ mi ≤ 59) (hs : 0 ≤ s ∧ s ≤ 59) :
    parseRfc3339 (utcText y m d h mi s) =
      .ok (some (dayNumber y m d * 86400 + h * 3600 + mi * 60 + s)) := by
  lift y to ℕ using hy.1
  lift m to ℕ using by omega
  lift d to ℕ using by omega
  lift h to ℕ using hh.1
  lift mi to ℕ using hmi.1
  lift s to ℕ using hs.1
  have hrange : DateTime.InRange ⟨y, m, d, h, mi, s, [], .utc⟩ :=
    ⟨by dsimp only; omega, by dsimp only; omega, by dsimp only; omega, by dsimp only; omega,
      by dsimp only; omega, by simp, trivial⟩
  have hround : ¬ DateTime.roundsUp ⟨y, m, d, h, mi, s, [], .utc⟩ := Nat.not_succ_le_zero 0
  rw [utcText_natCast, parseRfc3339_text _ hrange (by dsimp only; omega), DateTime.instant,
    if_neg hround, Zone.seconds, Int.sub_zero, Int.add_zero]

/-- With a negative year there are four parts between the dashes, and it is not. -/
theorem parseRfc3339_utcText_neg {y : ℤ} (hy : y < 0) (m d h mi s : ℤ) (hm : 1 ≤ m) (hd : 1 ≤ d) :
    parseRfc3339 (utcText y m d h mi s) = .ok none := by
  have hneg : padSigned 4 y = '-' :: padZero 3 y.natAbs := if_neg (by omega)
  have hpos : ∀ {x : ℤ}, 1 ≤ x → padSigned 2 x = padZero 2 x.toNat := fun hx => if_pos (by omega)
  have hsplit : ∀ rest, splitOnce 'T' (padSigned 4 y ++ '-' :: (padSigned 2 m ++ '-' ::
      (padSigned 2 d ++ 'T' :: rest))) =
        some ('-' :: (padZero 3 y.natAbs ++ '-' :: (padZero 2 m.toNat ++ '-' ::
          padZero 2 d.toNat)), rest) := by
    intro rest
    rw [hneg, hpos hm, hpos hd]
    have hT : 'T' ∉ '-' :: (padZero 3 y.natAbs ++ '-' :: (padZero 2 m.toNat ++ '-' ::
        padZero 2 d.toNat)) := by
      simp only [List.mem_append, List.mem_cons, not_or]
      exact ⟨by decide, not_mem_padZero (by decide), by decide, not_mem_padZero (by decide),
        by decide, not_mem_padZero (by decide)⟩
    rw [← splitOnce_append rest hT]
    simp only [List.cons_append, List.append_assoc]
  have hparts : ('-' :: (padZero 3 y.natAbs ++ '-' :: (padZero 2 m.toNat ++ '-' ::
      padZero 2 d.toNat))).splitOn '-' =
        [[], padZero 3 y.natAbs, padZero 2 m.toNat, padZero 2 d.toNat] := by
    rw [← List.nil_append ('-' :: _), List.splitOn_append_cons_self_of_not_mem (by simp),
      List.splitOn_append_cons_self_of_not_mem (not_mem_padZero (by decide)),
      List.splitOn_append_cons_self_of_not_mem (not_mem_padZero (by decide)),
      List.splitOn_eq_singleton (not_mem_padZero (by decide))]
  rw [parseRfc3339, utcText, hsplit, andThen_ok_some]
  simp only [hparts]

/-! ### What is read -/

/-- The first second of the year `2 ^ 31`. -/
def yearLimit : ℤ := daysBeforeYear (2 ^ 31) * 86400

theorem Clock.asI64_sinceEpoch (now : Clock) : asI64 now.sinceEpoch = max 0 now.secs := by
  have hfits := now.fits
  have hsince : (now.sinceEpoch : ℤ) = max 0 now.secs := by
    rw [sinceEpoch, Int.toNat_eq_max, max_comm]
  rw [hsince, asI64_eq] <;> omega

theorem Start.nowRfc3339_eq (now : Clock) :
    Start.nowRfc3339 now = Apply.formatRfc3339Utc (max 0 now.secs) := by
  rw [nowRfc3339, now.asI64_sinceEpoch, unixToYmdhms_eq]
  simp only [Apply.formatRfc3339Utc, Apply.civilFromDays_eq]

/-- A time from the epoch on is read as itself as long as its year is an `i32`. -/
theorem parseRfc3339_formatRfc3339Utc {secs : ℤ} (h0 : 0 ≤ secs) :
    parseRfc3339 (Apply.formatRfc3339Utc secs) = .ok (some secs) ↔ secs < yearLimit := by
  obtain ⟨hdate, hday⟩ := civil_spec (secs / 86400)
  rw [Apply.formatRfc3339Utc, Apply.civilFromDays_eq]
  simp only
  generalize (civil (secs / 86400)).1 = y at hdate hday ⊢
  generalize (civil (secs / 86400)).2.1 = m at hdate hday ⊢
  generalize (civil (secs / 86400)).2.2 = d at hdate hday ⊢
  have hm : 1 ≤ m ∧ m ≤ 12 := ⟨hdate.month_pos, hdate.month_le⟩
  have hd : 1 ≤ d ∧ d ≤ 31 := ⟨hdate.day_pos, hdate.day_le_31⟩
  have hy : 1970 ≤ y := by
    have hiff := hdate.year_lt_iff 1970
    rw [show daysBeforeYear 1970 = 0 by decide] at hiff
    omega
  have hlimit : secs < yearLimit ↔ y < 2 ^ 31 := by
    rw [hdate.year_lt_iff, hday, yearLimit]
    omega
  rw [hlimit]
  by_cases hneg : wrapI32 y < 0
  · -- the wrapped year is negative
    rw [parseRfc3339_utcText_neg hneg _ _ _ _ _ hm.1 hd.1]
    refine iff_of_false (by simp) fun hlt => ?_
    rw [wrapI32_eq (by omega) hlt] at hneg
    omega
  · have hwrap : wrapI32 y < 2 ^ 31 := by
      have := Int.bmod_lt (x := y) (m := 2 ^ 32) (by decide)
      unfold wrapI32
      omega
    rw [parseRfc3339_utcText ⟨by omega, hwrap⟩ hm hd (by omega) (by omega) (by omega),
      Except.ok.injEq, Option.some.injEq]
    constructor
    · intro he
      by_contra hge
      -- a smaller year, with the same month and day
      have hyear : wrapI32 y < y := by omega
      have hless := dayNumber_lt_of_year_lt hyear m d
      omega
    · intro hlt
      rw [wrapI32_eq (by omega) hlt, hday]
      omega

/-- The daemon's text has no time of day. -/
theorem parseRfc3339_formatIso8601Now (now : Clock) :
    parseRfc3339 (Manager.formatIso8601Now now) = .ok none := by
  have hdigit : ∀ c ∈ Nat.toDigits 10 now.sinceEpoch, c.isDigit = true := fun c hc =>
    Nat.isDigit_of_mem_toDigits (by decide) (by decide) hc
  have hsplit : splitOnce 'T' (Manager.formatIso8601Now now) =
      some ("1970-01-01".toList, Nat.toDigits 10 now.sinceEpoch ++ ['Z']) :=
    splitOnce_append _ (by decide +kernel)
  have hdate : "1970-01-01".toList.splitOn '-' = [padZero 4 1970, padZero 2 1, padZero 2 1] := by
    decide +kernel
  rw [parseRfc3339, hsplit, andThen_ok_some]
  simp only [hdate]
  rw [parseI64_padZero (by decide), parseI64_padZero (by decide)]
  simp only [andThen_ok_some]
  generalize Nat.toDigits 10 now.sinceEpoch = ds at hdigit ⊢
  have hno : ∀ c ∈ ds, c ≠ 'Z' ∧ c ≠ '+' ∧ c ≠ '-' := by
    intro c hc
    have hd := hdigit c hc
    refine ⟨?_, ?_, ?_⟩ <;> rintro rfl <;> cases hd
  by_cases hlen : 2 ≤ 0 + byteLen ds
  · -- the seconds are the only part of the time
    have hcolon : ':' ∉ ds := fun hc => by cases hdigit ':' hc
    rw [splitTz, findTz_append hno hlen (.inl rfl), andThen_ok_some]
    simp only [parseTz, or_true, if_true, andThen_ok_some, parseTime,
      List.splitOn_eq_singleton hcolon]
  · -- the zone is before the third byte
    have hnone : findTz 0 (ds ++ ['Z']) = none := by
      rw [Nat.zero_add, byteLen_eq_length fun c hc => utf8Size_of_isDigit (hdigit c hc)] at hlen
      cases ds with
      | nil => rfl
      | cons c ds =>
          obtain rfl : ds = [] := by
            rw [List.length_cons] at hlen
            exact List.length_eq_zero_iff.1 (by omega)
          rw [List.singleton_append, findTz, if_neg (by omega), Nat.zero_add,
            utf8Size_of_isDigit (hdigit c (by simp))]
          rfl
    rw [splitTz, hnone]
    rfl

/-! ### What is read back -/

/-- **The times of creation that are read as what they are**: those of the command line, from the
epoch up to the year `2 ^ 31`, and none of the daemon. -/
theorem createdAt_read_iff (w : CreatedAtWriter) (now : Clock) :
    parseRfc3339 (w.write now) = .ok (some now.secs) ↔
      w ≠ .daemon ∧ 0 ≤ now.secs ∧ now.secs < yearLimit := by
  -- before the epoch the commands write the epoch
  have hcommand : parseRfc3339 (Apply.formatRfc3339Utc (max 0 now.secs)) = .ok (some now.secs) ↔
      0 ≤ now.secs ∧ now.secs < yearLimit := by
    by_cases h0 : 0 ≤ now.secs
    · rw [max_eq_right h0, parseRfc3339_formatRfc3339Utc h0]
      exact (and_iff_right h0).symm
    · have hepoch := (parseRfc3339_formatRfc3339Utc (le_refl 0)).2 (by decide)
      rw [max_eq_left (by omega), hepoch, Except.ok.injEq, Option.some.injEq]
      omega
  cases w with
  | start =>
      rw [CreatedAtWriter.write, Start.nowRfc3339_eq, hcommand]
      simp
  | apply =>
      rw [CreatedAtWriter.write, Apply.nowRfc3339, now.asI64_sinceEpoch, hcommand]
      simp
  | daemon =>
      rw [CreatedAtWriter.write, parseRfc3339_formatIso8601Now]
      simp

/-- Noon of the first day of 2024. -/
def newYearNoon : Clock := ⟨1704110400, by decide⟩

/-- The daemon's text of it is shown as it is. -/
theorem daemonNoon_not_read :
    parseRfc3339 (Manager.formatIso8601Now newYearNoon) ≠ .ok (some newYearNoon.secs) := by
  decide +kernel

end Unitpm
