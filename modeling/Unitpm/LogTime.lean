import Unitpm.Lib.Gregorian
import Unitpm.Lib.Str
import Unitpm.Lib.Utf8
import Mathlib.Data.Int.Notation

/-! # Timestamps in log files

The daemon starts every line of a log with the time it is written (`format_now` and `ts_prefix` of
`daemon::manager::logwriter`), the `logs` command reads that time back (`parse_line` of
`cli::commands::logs::entry`).  The two use different code for civil dates, and different time
zones: the writer formats universal time, the reader takes what it finds for local time.

`localtimeOffset` is what `localtime_r` says about the reader's zone: the seconds east of
Greenwich at an instant.  A slice that would cut a character in two panics (`Panic`). -/

namespace Unitpm.Logs

open Rust.Str Utf8 Gregorian

/-! ### The writer -/

/-- `days_to_ymd`: year, month and day of the days since 1970-01-01. -/
def daysToYmd (daysSinceEpoch : ℤ) : ℤ × ℤ × ℤ :=
  let z := daysSinceEpoch + 719468
  let era := (if 0 ≤ z then z else z - 146096).tdiv 146097
  let doe := z - era * 146097
  let yoe := (doe - doe / 1460 + doe / 36524 - doe / 146096) / 365
  let y := yoe + era * 400
  let doy := doe - (365 * yoe + yoe / 4 - yoe / 100)
  let mp := (5 * doy + 2) / 153
  let d := doy - (153 * mp + 2) / 5 + 1
  let m := if mp < 10 then mp + 3 else mp - 9
  (if m ≤ 2 then y + 1 else y, m, d)

/-- `format_now`, at `now` seconds of Unix time. -/
def formatNow (now : ℕ) : List Char :=
  let days : ℤ := (now / 86400 : ℕ)
  let secsToday := now % 86400
  let hh := secsToday / 3600
  let mm := secsToday / 60 % 60
  let ss := secsToday % 60
  let ymd := daysToYmd days
  padZero 4 ymd.1.toNat ++ '-' :: (padZero 2 ymd.2.1.toNat ++ '-' :: (padZero 2 ymd.2.2.toNat ++
    ' ' :: (padZero 2 hh ++ ':' :: (padZero 2 mm ++ ':' :: padZero 2 ss))))

/-- `ts_prefix`. -/
def tsPrefix (now : ℕ) : List Char := formatNow now ++ [' ']

/-! ### The reader -/

/-- A slice of a string does not lie on character boundaries. -/
inductive Panic where
  | charBoundary
deriving DecidableEq

/-- `s[a..b]`. -/
def slice (s : List Char) (a b : ℕ) : Except Panic (List Char) :=
  match splitAtByte a s with
  | none => .error .charBoundary
  | some (_, r) =>
      match splitAtByte (b - a) r with
      | none => .error .charBoundary
      | some (m, _) => .ok m

/-- `x?` in a function that returns an `Option`. -/
def andThen {α β : Type} (x : Except Panic (Option α)) (f : α → Except Panic (Option β)) :
    Except Panic (Option β) :=
  match x with
  | .error p => .error p
  | .ok none => .ok none
  | .ok (some a) => f a

/-- `TS_LEN`: the length of `YYYY-MM-DD HH:MM:SS`. -/
def tsLen : ℕ := 19

/-- `days_from_civil`; the checked operations of the source cannot overflow for an `i32` year. -/
def daysFromCivil (y : ℤ) (m d : ℕ) : ℤ :=
  let y := if m ≤ 2 then y - 1 else y
  let era := (if 0 ≤ y then y else y - 399).tdiv 400
  let yoe := y - era * 400
  let mu : ℤ := if 2 < m then (m : ℤ) - 3 else m + 9
  let doy := (153 * mu + 2) / 5 + d - 1
  let doe := yoe * 365 + yoe / 4 - yoe / 100 + doy
  era * 146097 + doe - 719468

/-- The two digits of a field, as a `u32`. -/
def number (s : List Char) (a b : ℕ) : Except Panic (Option ℕ) :=
  (slice s a b).map (parseUnsigned (2 ^ 32 - 1))

/-- `parse_local_timestamp`. -/
def parseLocalTimestamp (localtimeOffset : ℤ → ℤ) (s : List Char) : Except Panic (Option ℤ) :=
  if byteLen s < tsLen then .ok none
  else
    andThen ((slice s 0 4).map (parseSigned (2 ^ 31) (2 ^ 31 - 1))) fun year =>
    andThen (number s 5 7) fun month =>
    andThen (number s 8 10) fun day =>
    andThen (number s 11 13) fun hour =>
    andThen (number s 14 16) fun minute =>
    andThen (number s 17 19) fun second =>
      if ¬ (1 ≤ month ∧ month ≤ 12) ∨ day < 1 ∨ 23 < hour ∨ 59 < minute ∨ 59 < second then .ok none
      else
        let naive := daysFromCivil year month day * 86400 + hour * 3600 + minute * 60 + second
        let first := localtimeOffset naive
        .ok (some (naive - localtimeOffset (naive - first)))

/-- `parse_line`: the timestamp and the text of a line, `none` for a line without a timestamp. -/
def parseLine (localtimeOffset : ℤ → ℤ) (line : List Char) :
    Except Panic (Option (ℤ × List Char)) :=
  if byteLen line < tsLen + 1 then .ok none
  else
    match splitAtByte tsLen line with
    | none => .ok none
    | some (ts, body) =>
        andThen (parseLocalTimestamp localtimeOffset ts) fun t => .ok (some (t, trimStart body))

/-! ### Civil dates -/

theorem daysToYmd_eq (days : ℤ) : daysToYmd days = civil days := by
  have h := tdiv_shifted (k := 146097) (by decide) (days + 719468)
  norm_num at h
  simp only [daysToYmd, h, civil]

theorem daysFromCivil_eq (y : ℤ) (m d : ℕ) : daysFromCivil y m d = eraDays y m d := by
  have h : ∀ z : ℤ, (if 0 ≤ z then z else z - 399).tdiv 400 = z / 400 := by
    intro z
    have h := tdiv_shifted (k := 400) (by decide) z
    norm_num at h
    exact h
  have hm : ((m : ℤ) ≤ 2 ↔ m ≤ 2) ∧ (2 < (m : ℤ) ↔ 2 < m) := by omega
  simp only [daysFromCivil, h, eraDays, hm.1, hm.2]

/-- What `days_to_ymd` returns for a day from 1970 to 9999 is a date, and `days_from_civil` counts
the days back. -/
theorem daysToYmd_spec {days : ℤ} (h0 : 0 ≤ days) (h1 : days ≤ 2932896) :
    0 ≤ (daysToYmd days).1 ∧ (daysToYmd days).1 ≤ 9999 ∧
      1 ≤ (daysToYmd days).2.1 ∧ (daysToYmd days).2.1 ≤ 12 ∧
      1 ≤ (daysToYmd days).2.2 ∧ (daysToYmd days).2.2 ≤ 31 ∧
      daysFromCivil (daysToYmd days).1 (daysToYmd days).2.1.toNat (daysToYmd days).2.2.toNat =
        days := by
  obtain ⟨hdate, hday⟩ := civil_spec days
  rw [daysToYmd_eq]
  generalize (civil days).1 = y at hdate hday ⊢
  generalize (civil days).2.1 = m at hdate hday ⊢
  generalize (civil days).2.2 = d at hdate hday ⊢
  have hfirst : y < 0 ↔ dayNumber y m d < -719528 := hdate.year_lt_iff 0
  have hlast : y < 10000 ↔ dayNumber y m d < 2932897 := hdate.year_lt_iff 10000
  have hm : (m.toNat : ℤ) = m := Int.toNat_of_nonneg (by have := hdate.month_pos; omega)
  have hd : (d.toNat : ℤ) = d := Int.toNat_of_nonneg (by have := hdate.day_pos; omega)
  refine ⟨by omega, by omega, hdate.month_pos, hdate.month_le, hdate.day_pos, hdate.day_le_31, ?_⟩
  rw [daysFromCivil_eq, hm, hd, eraDays_eq hdate.month_pos hdate.month_le, hday]

/-! ### Reading what was written -/

theorem slice_append (x y z : List Char) {a b : ℕ} (ha : byteLen x = a) (hb : byteLen y = b - a) :
    slice (x ++ (y ++ z)) a b = .ok y := by
  rw [slice, ← ha, splitAtByte_append]
  simp only
  rw [ha, ← hb, splitAtByte_append]

theorem byteLen_padZero {w n : ℕ} (hw : 0 < w) (h : n < 10 ^ w) : byteLen (padZero w n) = w := by
  rw [byteLen_eq_length, length_padZero hw h]
  intro c hc
  have hd := isDigit_of_mem_padZero c hc
  simp only [Char.isDigit, Bool.and_eq_true, decide_eq_true_eq] at hd
  rw [Char.utf8Size_eq_one_iff]
  exact UInt32.le_trans hd.2 (by decide)

/-- The fields of a timestamp. -/
structure Fields where
  year : ℕ
  month : ℕ
  day : ℕ
  hour : ℕ
  minute : ℕ
  second : ℕ

/-- A timestamp with its fields padded. -/
def Fields.text (f : Fields) : List Char :=
  padZero 4 f.year ++ '-' :: (padZero 2 f.month ++ '-' :: (padZero 2 f.day ++
    ' ' :: (padZero 2 f.hour ++ ':' :: (padZero 2 f.minute ++ ':' :: padZero 2 f.second))))

/-- The fields name a second of a day. -/
structure Fields.Valid (f : Fields) : Prop where
  year : f.year < 10000
  month : 1 ≤ f.month ∧ f.month ≤ 12
  day : 1 ≤ f.day ∧ f.day < 100
  hour : f.hour ≤ 23
  minute : f.minute ≤ 59
  second : f.second ≤ 59

/-- The seconds since 1970 that the fields count. -/
def Fields.naive (f : Fields) : ℤ :=
  daysFromCivil f.year f.month f.day * 86400 + f.hour * 3600 + f.minute * 60 + f.second

theorem number_padZero {n : ℕ} (z : List Char) (hn : n < 10 ^ 2) :
    number (padZero 2 n ++ z) 0 2 = .ok (some n) := by
  have h : slice (padZero 2 n ++ z) 0 2 = .ok (padZero 2 n) :=
    slice_append [] (padZero 2 n) z rfl (byteLen_padZero (w := 2) (by decide) hn)
  rw [number, h]
  exact congrArg Except.ok (parseUnsigned_padZero (by omega))

theorem number_append {x : List Char} {k : ℕ} (hk : byteLen x = k) (l : List Char) (a b : ℕ) :
    number (x ++ l) (k + a) (k + b) = number l a b := by
  rw [number, number, slice, slice, ← hk, splitAtByte_add, Nat.add_sub_add_left]
  cases splitAtByte a l <;> rfl

theorem Fields.byteLen_text {f : Fields} (h : f.Valid) : byteLen f.text = tsLen := by
  have hs : ('-' : Char).utf8Size = 1 ∧ (' ' : Char).utf8Size = 1 ∧ (':' : Char).utf8Size = 1 := by
    decide
  have lt : ∀ {n}, n ≤ 59 → n < 10 ^ 2 := fun h => by omega
  simp only [text, byteLen_append, byteLen_cons, hs, tsLen,
    byteLen_padZero (w := 4) (by decide) h.year,
    byteLen_padZero (w := 2) (by decide) (lt (h.month.2.trans (by decide))),
    byteLen_padZero (w := 2) (by decide) h.day.2,
    byteLen_padZero (w := 2) (by decide) (lt (h.hour.trans (by decide))),
    byteLen_padZero (w := 2) (by decide) (lt h.minute),
    byteLen_padZero (w := 2) (by decide) (lt h.second)]

/-- `parse_local_timestamp` finds the fields of a timestamp. -/
theorem parseLocalTimestamp_text {f : Fields} (h : f.Valid) (off : ℤ → ℤ) :
    parseLocalTimestamp off f.text = .ok (some (f.naive - off (f.naive - off f.naive))) := by
  have lt : ∀ {n}, n ≤ 59 → n < 10 ^ 2 := fun h => by omega
  have hm := lt (h.month.2.trans (by decide))
  have hh := lt (h.hour.trans (by decide))
  -- a field of two digits and the separator behind it take three bytes
  have skip : ∀ {n : ℕ} (c : Char) (l : List Char) (a b : ℕ), c.utf8Size = 1 → n < 10 ^ 2 →
      number (padZero 2 n ++ c :: l) (3 + a) (3 + b) = number l a b := by
    intro n c l a b hc hn
    have hx : byteLen (padZero 2 n ++ [c]) = 3 := by
      simp [byteLen_padZero (w := 2) (by decide) hn, hc]
    simpa using number_append hx l a b
  have skipYear : ∀ (l : List Char) (a b : ℕ),
      number (padZero 4 f.year ++ '-' :: l) (5 + a) (5 + b) = number l a b := by
    intro l a b
    have hx : byteLen (padZero 4 f.year ++ ['-']) = 5 := by
      simp [byteLen_padZero (w := 4) (by decide) h.year, show ('-' : Char).utf8Size = 1 by decide]
    simpa using number_append hx l a b
  have hs : ('-' : Char).utf8Size = 1 ∧ (' ' : Char).utf8Size = 1 ∧ (':' : Char).utf8Size = 1 := by
    decide
  have e1 : slice f.text 0 4 = .ok (padZero 4 f.year) :=
    slice_append [] (padZero 4 f.year) _ rfl (byteLen_padZero (by decide) h.year)
  have e2 : number f.text 5 7 = .ok (some f.month) := by
    rw [Fields.text, skipYear _ 0 2, number_padZero _ hm]
  have e3 : number f.text 8 10 = .ok (some f.day) := by
    rw [Fields.text, skipYear _ 3 5, skip _ _ 0 2 hs.1 hm, number_padZero _ h.day.2]
  have e4 : number f.text 11 13 = .ok (some f.hour) := by
    rw [Fields.text, skipYear _ 6 8, skip _ _ 3 5 hs.1 hm, skip _ _ 0 2 hs.2.1 h.day.2,
      number_padZero _ hh]
  have e5 : number f.text 14 16 = .ok (some f.minute) := by
    rw [Fields.text, skipYear _ 9 11, skip _ _ 6 8 hs.1 hm, skip _ _ 3 5 hs.2.1 h.day.2,
      skip _ _ 0 2 hs.2.2 hh, number_padZero _ (lt h.minute)]
  have e6 : number f.text 17 19 = .ok (some f.second) := by
    rw [Fields.text, skipYear _ 12 14, skip _ _ 9 11 hs.1 hm, skip _ _ 6 8 hs.2.1 h.day.2,
      skip _ _ 3 5 hs.2.2 hh, skip _ _ 0 2 hs.2.2 (lt h.minute)]
    simpa using number_padZero [] (lt h.second)
  have hyear : parseSigned (2 ^ 31) (2 ^ 31 - 1) (padZero 4 f.year) = some (f.year : ℤ) := by
    have := h.year
    exact parseSigned_padZero (by omega)
  have hin : ¬ (¬ (1 ≤ f.month ∧ f.month ≤ 12) ∨ f.day < 1 ∨ 23 < f.hour ∨ 59 < f.minute ∨
      59 < f.second) := by
    obtain ⟨-, h1, h2, h3, h4, h5⟩ := h
    omega
  rw [parseLocalTimestamp, if_neg (by rw [Fields.byteLen_text h]; omega), e1, e2, e3, e4, e5, e6]
  simp only [Except.map, hyear, andThen, if_neg hin]
  rfl

/-- The fields that the writer formats at `now`. -/
def fieldsAt (now : ℕ) : Fields where
  year := (daysToYmd (now / 86400 : ℕ)).1.toNat
  month := (daysToYmd (now / 86400 : ℕ)).2.1.toNat
  day := (daysToYmd (now / 86400 : ℕ)).2.2.toNat
  hour := now % 86400 / 3600
  minute := now % 86400 / 60 % 60
  second := now % 86400 % 60

theorem formatNow_eq (now : ℕ) : formatNow now = (fieldsAt now).text := by
  simp only [formatNow, fieldsAt, Fields.text]

theorem fieldsAt_spec {now : ℕ} (h : now < 253402300800) :
    (fieldsAt now).Valid ∧ (fieldsAt now).naive = now := by
  have hdays : ((now / 86400 : ℕ) : ℤ) ≤ 2932896 := by omega
  obtain ⟨hy0, hy1, hm0, hm1, hd0, hd1, hback⟩ := daysToYmd_spec (Int.natCast_nonneg _) hdays
  constructor
  · constructor <;> simp only [fieldsAt] <;> omega
  · have hyear : ((fieldsAt now).year : ℤ) = (daysToYmd (now / 86400 : ℕ)).1 :=
      Int.toNat_of_nonneg hy0
    rw [Fields.naive, hyear]
    simp only [fieldsAt, hback]
    omega

theorem tsPrefix_append (now : ℕ) (body : List Char) :
    tsPrefix now ++ body = (fieldsAt now).text ++ ' ' :: body := by
  rw [tsPrefix, formatNow_eq, List.append_assoc]
  rfl

theorem parseLine_text {f : Fields} (h : f.Valid) (off : ℤ → ℤ) (body : List Char) :
    parseLine off (f.text ++ ' ' :: body) =
      .ok (some (f.naive - off (f.naive - off f.naive), trimStart body)) := by
  have hlen := Fields.byteLen_text h
  have hsp : (' ' : Char).utf8Size = 1 := by decide
  have htrim : trimStart (' ' :: body) = trimStart body := by
    rw [trimStart, List.dropWhile_cons_of_pos (by decide), trimStart]
  have hsplit : splitAtByte tsLen (f.text ++ ' ' :: body) = some (f.text, ' ' :: body) := by
    rw [← hlen, splitAtByte_append]
  rw [parseLine, if_neg (by rw [byteLen_append, byteLen_cons, hlen, hsp]; omega), hsplit]
  simp only [parseLocalTimestamp_text h, andThen, htrim]

/-- **A line the daemon wrote, read back.**  The reader finds the text of the line, and the instant
at which a clock of the reader's zone shows what the writer's clock showed. -/
theorem parseLine_tsPrefix {now : ℕ} (h : now < 253402300800) (off : ℤ → ℤ) (body : List Char) :
    parseLine off (tsPrefix now ++ body) =
      .ok (some (now - off (now - off now), trimStart body)) := by
  obtain ⟨hv, hn⟩ := fieldsAt_spec h
  rw [tsPrefix_append, parseLine_text hv, hn]

/-- **Timestamps agree** exactly where the reader's zone is that of the writer: universal time. -/
theorem parseLine_timestamp_iff (t : ℕ) (h : t < 253402300800) (offset : ℤ) (body : List Char) :
    (∃ text, parseLine (fun _ => offset) (tsPrefix t ++ body) = .ok (some ((t : ℤ), text))) ↔
      offset = 0 := by
  rw [parseLine_tsPrefix h]
  constructor
  · rintro ⟨text, he⟩
    have : (t : ℤ) - offset = t := congrArg Prod.fst (Option.some.inj (Except.ok.inj he))
    omega
  · rintro rfl
    exact ⟨trimStart body, by simp⟩

/-- The last second of 2024, read in universal time. -/
theorem parseLine_timestamp_utc :
    (∃ text, parseLine (fun _ => 0) (tsPrefix 1735689599 ++ "ready".toList) =
      .ok (some (1735689599, text))) ∧ tsPrefix 1735689599 = "2024-12-31 23:59:59 ".toList :=
  ⟨(parseLine_timestamp_iff 1735689599 (by decide) 0 "ready".toList).mpr rfl, by decide +kernel⟩

/-- A reader two hours east of Greenwich takes the line for two hours older than it is. -/
theorem parseLine_timestamp_shifted :
    parseLine (fun _ => 7200) (tsPrefix 1735689599 ++ "ready".toList) =
        .ok (some (1735682399, "ready".toList)) ∧
      ¬ ∃ text, parseLine (fun _ => 7200) (tsPrefix 1735689599 ++ "ready".toList) =
        .ok (some (1735689599, text)) := by
  have h : parseLine (fun _ => 7200) (tsPrefix 1735689599 ++ "ready".toList) =
      .ok (some (1735682399, "ready".toList)) := by decide +kernel
  refine ⟨h, ?_⟩
  rintro ⟨text, he⟩
  rw [h] at he
  have : (1735682399 : ℤ) = 1735689599 := congrArg Prod.fst (Option.some.inj (Except.ok.inj he))
  omega

end Unitpm.Logs
