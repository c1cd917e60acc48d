import Unitpm.LogEntry

/-! # Which lines are headers

`parse_line` takes a line for the header of an entry if it finds numbers in range at the places of a
timestamp.  It never looks at the separators, reads numbers with a sign, and knows no lengths of
months (`parseLine_eq_some_iff`); and it cuts the line at fixed byte offsets, which panics inside a
character (`returns_parseLine_iff`).  `parse_banner_middle` cuts at the end of the line, too
(`returns_parseBannerMiddle_iff`).

`parse_lines_iff` puts together what a line must be for both to return and for the header lines to
be those with a timestamp. -/

namespace Unitpm.Logs

open Rust.Str Utf8

/-! ### Slices -/

/-- A slice lies between two character boundaries. -/
theorem slice_eq_ok_iff {s m : List Char} {a b : ℕ} :
    slice s a b = .ok m ↔
      ∃ l r, s = l ++ (m ++ r) ∧ byteLen l = a ∧ byteLen m = b - a := by
  constructor
  · intro h
    unfold slice at h
    cases hs : splitAtByte a s with
    | none => simp [hs] at h
    | some p =>
        obtain ⟨l, r⟩ := p
        simp only [hs] at h
        cases hr : splitAtByte (b - a) r with
        | none => simp [hr] at h
        | some q =>
            obtain ⟨m', r'⟩ := q
            simp only [hr] at h
            obtain rfl := Except.ok.inj h
            obtain ⟨rfl, hl⟩ := append_of_splitAtByte hs
            obtain ⟨rfl, hm⟩ := append_of_splitAtByte hr
            exact ⟨l, r', rfl, hl, hm⟩
  · rintro ⟨l, r, rfl, hl, hm⟩
    exact slice_append l m r hl hm

/-! ### Slices that panic -/

/-- A computation returns. -/
def Returns {α : Type} (x : Except Panic α) : Prop := ∃ r, x = .ok r

/-- The numbers that `parse` reads from a slice: with a minus sign only for the year. -/
def reads (signed : Bool) (m : List Char) : Bool :=
  if signed then (parseSigned (2 ^ 31) (2 ^ 31 - 1) m).isSome
  else (parseUnsigned (2 ^ 32 - 1) m).isSome

/-- The fields of a timestamp: where they begin and end, and which of them is the year. -/
def spans : List (ℕ × ℕ × Bool) :=
  [(0, 4, true), (5, 7, false), (8, 10, false), (11, 13, false), (14, 16, false), (17, 19, false)]

/-- The fields lie on character boundaries, up to the first that holds no number. -/
def Cuttable (s : List Char) : List (ℕ × ℕ × Bool) → Prop
  | [] => True
  | (a, b, signed) :: fs =>
      ∃ l m r, s = l ++ (m ++ r) ∧ byteLen l = a ∧ byteLen m = b - a ∧
        (reads signed m = true → Cuttable s fs)

theorem returns_ok {α : Type} (r : α) : Returns (.ok r : Except Panic α) := ⟨r, rfl⟩

/-- A field is sliced, and the rest is reached if it is a number. -/
theorem returns_andThen {α β : Type} {s : List Char} {a b : ℕ} {g : List Char → Option α}
    {f : α → Except Panic (Option β)} {P : Prop} (hf : ∀ v, Returns (f v) ↔ P) :
    Returns (andThen ((slice s a b).map g) f) ↔
      ∃ l m r, s = l ++ (m ++ r) ∧ byteLen l = a ∧ byteLen m = b - a ∧
        ((g m).isSome = true → P) := by
  have hslice : (∃ l m r, s = l ++ (m ++ r) ∧ byteLen l = a ∧ byteLen m = b - a ∧
      ((g m).isSome = true → P)) ↔
        ∃ m, slice s a b = .ok m ∧ ((g m).isSome = true → P) := by
    constructor
    · rintro ⟨l, m, r, hs, hl, hm, h⟩
      exact ⟨m, slice_eq_ok_iff.mpr ⟨l, r, hs, hl, hm⟩, h⟩
    · rintro ⟨m, hs, h⟩
      obtain ⟨l, r, hs, hl, hm⟩ := slice_eq_ok_iff.mp hs
      exact ⟨l, m, r, hs, hl, hm, h⟩
  rw [hslice]
  cases hs : slice s a b with
  | error p =>
      simp only [Except.map, andThen, Returns]
      simp
  | ok m =>
      cases hg : g m with
      | none => simp [Except.map, andThen, Returns, hg]
      | some v => simp [Except.map, andThen, hg, hf]

theorem returns_parseLocalTimestamp_iff (off : ℤ → ℤ) {s : List Char} (h : tsLen ≤ byteLen s) :
    Returns (parseLocalTimestamp off s) ↔ Cuttable s spans := by
  rw [parseLocalTimestamp, if_neg (by omega)]
  refine returns_andThen fun year => ?_
  refine returns_andThen fun month => ?_
  refine returns_andThen fun day => ?_
  refine returns_andThen fun hour => ?_
  refine returns_andThen fun minute => ?_
  refine returns_andThen fun second => ?_
  refine iff_of_true ?_ trivial
  split_ifs
  · exact returns_ok _
  · exact returns_ok _

theorem returns_andThen_ok {α β : Type} {x : Except Panic (Option α)} (f : α → Option β) :
    Returns (andThen x fun v => .ok (f v)) ↔ Returns x := by
  cases x with
  | error p => simp [andThen, Returns]
  | ok o => cases o <;> simp [andThen, Returns]

theorem byteLen_pos_iff {l : List Char} : 0 < byteLen l ↔ l ≠ [] := by
  cases l with
  | nil => simp
  | cons c l =>
      have := c.utf8Size_pos
      rw [byteLen_cons]
      simp only [ne_eq, reduceCtorEq, not_false_eq_true, iff_true]
      omega

/-- `parse_line` returns if and only if the fields of the first 19 bytes lie on character
boundaries; a line that has no 20 bytes, or no boundary behind 19, is not looked at. -/
theorem returns_parseLine_iff (off : ℤ → ℤ) (s : List Char) :
    Returns (parseLine off s) ↔
      ∀ ts rest, s = ts ++ rest → byteLen ts = tsLen → rest ≠ [] → Cuttable ts spans := by
  rw [parseLine]
  split_ifs with hlen
  · refine iff_of_true (returns_ok _) ?_
    rintro ts rest rfl hts hrest
    rw [byteLen_append] at hlen
    have := byteLen_pos_iff.mpr hrest
    omega
  · cases hs : splitAtByte tsLen s with
    | none =>
        refine iff_of_true (returns_ok _) ?_
        rintro ts rest rfl hts -
        rw [← hts, splitAtByte_append] at hs
        cases hs
    | some p =>
        obtain ⟨ts, rest⟩ := p
        obtain ⟨rfl, hts⟩ := append_of_splitAtByte hs
        simp only
        rw [returns_andThen_ok, returns_parseLocalTimestamp_iff off hts.ge]
        constructor
        · rintro h ts' rest' he hts' -
          rw [he, ← hts', splitAtByte_append] at hs
          obtain ⟨rfl, -⟩ := Prod.mk.inj (Option.some.inj hs)
          exact h
        · intro h
          refine h ts rest rfl hts (byteLen_pos_iff.mp ?_)
          rw [byteLen_append] at hlen
          omega

/-- `parse_banner_middle` returns if and only if the 19 bytes before the tail begin at a character
boundary and their fields lie on such. -/
theorem returns_parseBannerMiddle_iff (off : ℤ → ℤ) (s : List Char) :
    Returns (parseBannerMiddle off s) ↔
      ∀ inner, s = inner ++ bannerTail → tsLen ≤ byteLen inner →
        ∃ head ts, inner = head ++ ts ∧ byteLen ts = tsLen ∧ Cuttable ts spans := by
  have htail : byteLen bannerTail = bannerTail.length := by decide
  rw [parseBannerMiddle]
  by_cases hsuf : bannerTail <:+ s
  · obtain ⟨inner, rfl⟩ := hsuf
    rw [if_neg (by simp), byteLen_append, htail]
    have hinner : (inner ++ bannerTail).take ((inner ++ bannerTail).length - bannerTail.length) =
        inner := by simp
    have hall : ∀ P : List Char → Prop,
        (∀ inner', inner ++ bannerTail = inner' ++ bannerTail → P inner') ↔ P inner := by
      intro P
      exact ⟨fun h => h inner rfl, fun h inner' he => List.append_cancel_right he ▸ h⟩
    rw [hall]
    split_ifs with hlen
    · exact iff_of_true (returns_ok _) fun h => absurd h (by omega)
    · simp only [hinner]
      have hle : tsLen ≤ byteLen inner := by omega
      constructor
      · intro h _
        cases hs : splitAtByte (byteLen inner - tsLen) inner with
        | none =>
            rw [hs] at h
            obtain ⟨r, hr⟩ := h
            cases hr
        | some p =>
            obtain ⟨hd, ts⟩ := p
            simp only [hs] at h
            obtain ⟨rfl, hhd⟩ := append_of_splitAtByte hs
            rw [byteLen_append] at hhd hle
            have hts : byteLen ts = tsLen := by omega
            exact ⟨hd, ts, rfl, hts, (returns_parseLocalTimestamp_iff off hts.ge).mp h⟩
      · intro h
        obtain ⟨hd, ts, rfl, hts, hcut⟩ := h hle
        have hs : splitAtByte (byteLen (hd ++ ts) - tsLen) (hd ++ ts) = some (hd, ts) := by
          rw [byteLen_append, hts, Nat.add_sub_cancel, splitAtByte_append]
        rw [hs]
        exact (returns_parseLocalTimestamp_iff off hts.ge).mpr hcut
  · rw [if_pos hsuf]
    refine iff_of_true (returns_ok _) ?_
    rintro inner rfl
    exact absurd (List.suffix_append inner bannerTail) hsuf

/-! ### Lines taken for headers -/

/-- A line cut at the places of a timestamp, whatever stands between the fields. -/
structure Stamp where
  year : List Char
  afterYear : Char
  month : List Char
  afterMonth : Char
  day : List Char
  afterDay : Char
  hour : List Char
  afterHour : Char
  minute : List Char
  afterMinute : Char
  second : List Char

/-- The first 19 bytes of the line. -/
def Stamp.text (p : Stamp) : List Char :=
  p.year ++ p.afterYear :: (p.month ++ p.afterMonth :: (p.day ++ p.afterDay :: (p.hour ++
    p.afterHour :: (p.minute ++ p.afterMinute :: p.second))))

/-- A number in a field of two bytes, with or without a plus sign. -/
def TwoBytes (lo hi : ℕ) (m : List Char) : Prop :=
  byteLen m = 2 ∧ ∃ n, IsNumeral m n ∧ lo ≤ n ∧ n ≤ hi

/-- What the reader asks of the fields: numbers in range. -/
structure Stamp.InRange (p : Stamp) : Prop where
  year : byteLen p.year = 4 ∧ reads true p.year = true
  month : TwoBytes 1 12 p.month
  day : TwoBytes 1 (2 ^ 32 - 1) p.day
  hour : TwoBytes 0 23 p.hour
  minute : TwoBytes 0 59 p.minute
  second : TwoBytes 0 59 p.second
  separators : p.afterYear.utf8Size = 1 ∧ p.afterMonth.utf8Size = 1 ∧ p.afterDay.utf8Size = 1 ∧
    p.afterHour.utf8Size = 1 ∧ p.afterMinute.utf8Size = 1

theorem andThen_eq_some_iff {α β : Type} {x : Except Panic (Option α)}
    {f : α → Except Panic (Option β)} {b : β} :
    andThen x f = .ok (some b) ↔ ∃ a, x = .ok (some a) ∧ f a = .ok (some b) := by
  cases x with
  | error p => simp [andThen]
  | ok o => cases o <;> simp [andThen]

theorem map_slice_eq_some_iff {α : Type} {s : List Char} {a b : ℕ} {g : List Char → Option α}
    {v : α} :
    (slice s a b).map g = .ok (some v) ↔ ∃ m, slice s a b = .ok m ∧ g m = some v := by
  cases slice s a b with
  | error p => simp [Except.map]
  | ok m => simp [Except.map]

theorem number_eq_some_iff {s : List Char} {a b n : ℕ} :
    number s a b = .ok (some n) ↔
      ∃ m, slice s a b = .ok m ∧ IsNumeral m n ∧ n ≤ 2 ^ 32 - 1 := by
  rw [number, map_slice_eq_some_iff]
  exact exists_congr fun m => and_congr_right fun _ => parseUnsigned_eq_some_iff

/-- The field behind `x` and a separator. -/
theorem slice_next_iff {x r m : List Char} {k a b : ℕ} (hx : byteLen x = k) (ha : a = k + 1) :
    slice (x ++ r) a b = .ok m ↔
      ∃ c r', c.utf8Size = 1 ∧ r = c :: (m ++ r') ∧ byteLen m = b - a := by
  rw [slice_eq_ok_iff]
  constructor
  · rintro ⟨l, r', he, hl, hm⟩
    obtain ⟨z, rfl, hr⟩ | ⟨z, rfl, -⟩ := List.append_eq_append_iff.mp he
    · rw [byteLen_append] at hl
      match z, hr with
      | [], _ => simp at hl; omega
      | [c], hr => exact ⟨c, r', by rw [byteLen_cons] at hl; simp at hl; omega, hr, hm⟩
      | c :: d :: z, _ =>
          have hc := c.utf8Size_pos
          have hd := d.utf8Size_pos
          rw [byteLen_cons, byteLen_cons] at hl
          omega
    · rw [byteLen_append] at hx
      omega
  · rintro ⟨c, r', hc, rfl, hm⟩
    exact ⟨x ++ [c], r', by simp, by simp [hc, hx, ha], hm⟩

/-- The pieces of 19 bytes that hold the fields. -/
theorem exists_stamp_of_slices {ts y mo d h mi sec : List Char} (hts : byteLen ts = tsLen)
    (h1 : slice ts 0 4 = .ok y) (h2 : slice ts 5 7 = .ok mo) (h3 : slice ts 8 10 = .ok d)
    (h4 : slice ts 11 13 = .ok h) (h5 : slice ts 14 16 = .ok mi) (h6 : slice ts 17 19 = .ok sec) :
    ∃ c₁ c₂ c₃ c₄ c₅, ts = (Stamp.mk y c₁ mo c₂ d c₃ h c₄ mi c₅ sec).text ∧
      (byteLen y = 4 ∧ byteLen mo = 2 ∧ byteLen d = 2 ∧ byteLen h = 2 ∧ byteLen mi = 2 ∧
        byteLen sec = 2) ∧
      c₁.utf8Size = 1 ∧ c₂.utf8Size = 1 ∧ c₃.utf8Size = 1 ∧ c₄.utf8Size = 1 ∧
        c₅.utf8Size = 1 := by
  obtain ⟨l, r, rfl, hl, hy⟩ := slice_eq_ok_iff.mp h1
  obtain rfl : l = [] := by
    by_contra hne
    have := byteLen_pos_iff.mpr hne
    omega
  rw [List.nil_append] at hts h2 h3 h4 h5 h6 ⊢
  -- each field is found behind the ones before it
  obtain ⟨c₁, r, e₁, rfl, hmo⟩ := (slice_next_iff hy rfl).mp h2
  have l₂ : byteLen (y ++ c₁ :: mo) = 7 := by
    rw [byteLen_append, byteLen_cons]
    omega
  rw [← List.cons_append, ← List.append_assoc] at hts h3 h4 h5 h6
  obtain ⟨c₂, r, e₂, rfl, hd⟩ := (slice_next_iff l₂ rfl).mp h3
  have l₃ : byteLen (y ++ c₁ :: mo ++ c₂ :: d) = 10 := by
    rw [byteLen_append, byteLen_cons]
    omega
  rw [← List.cons_append, ← List.append_assoc] at hts h4 h5 h6
  obtain ⟨c₃, r, e₃, rfl, hh⟩ := (slice_next_iff l₃ rfl).mp h4
  have l₄ : byteLen (y ++ c₁ :: mo ++ c₂ :: d ++ c₃ :: h) = 13 := by
    rw [byteLen_append, byteLen_cons]
    omega
  rw [← List.cons_append, ← List.append_assoc] at hts h5 h6
  obtain ⟨c₄, r, e₄, rfl, hmi⟩ := (slice_next_iff l₄ rfl).mp h5
  have l₅ : byteLen (y ++ c₁ :: mo ++ c₂ :: d ++ c₃ :: h ++ c₄ :: mi) = 16 := by
    rw [byteLen_append, byteLen_cons]
    omega
  rw [← List.cons_append, ← List.append_assoc] at hts h6
  obtain ⟨c₅, r, e₅, rfl, hs⟩ := (slice_next_iff l₅ rfl).mp h6
  have l₆ : byteLen (y ++ c₁ :: mo ++ c₂ :: d ++ c₃ :: h ++ c₄ :: mi ++ c₅ :: sec) = 19 := by
    rw [byteLen_append, byteLen_cons]
    omega
  obtain rfl : r = [] := by
    by_contra hne
    have := byteLen_pos_iff.mpr hne
    rw [← List.cons_append, ← List.append_assoc, byteLen_append, l₆, tsLen] at hts
    omega
  exact ⟨c₁, c₂, c₃, c₄, c₅, by simp [Stamp.text], ⟨hy, hmo, hd, hh, hmi, hs⟩, e₁, e₂, e₃, e₄, e₅⟩

theorem slices_of_stamp {p : Stamp} (h : p.InRange) :
    byteLen p.text = tsLen ∧ slice p.text 0 4 = .ok p.year ∧ slice p.text 5 7 = .ok p.month ∧
      slice p.text 8 10 = .ok p.day ∧ slice p.text 11 13 = .ok p.hour ∧
      slice p.text 14 16 = .ok p.minute ∧ slice p.text 17 19 = .ok p.second := by
  obtain ⟨⟨hy, -⟩, ⟨hmo, -⟩, ⟨hd, -⟩, ⟨hh, -⟩, ⟨hmi, -⟩, ⟨hs, -⟩, e₁, e₂, e₃, e₄, e₅⟩ := h
  have l₁ : ∀ {x m : List Char} {c : Char} {k j : ℕ}, byteLen x = k → c.utf8Size = 1 →
      byteLen m = j → byteLen (x ++ c :: m) = k + (1 + j) := by
    intro x m c k j hx hc hm
    rw [byteLen_append, byteLen_cons, hx, hc, hm]
  have l₂ := l₁ hy e₁ hmo
  have l₃ := l₁ l₂ e₂ hd
  have l₄ := l₁ l₃ e₃ hh
  have l₅ := l₁ l₄ e₄ hmi
  have l₆ := l₁ l₅ e₅ hs
  refine ⟨?_, ?_, ?_, ?_, ?_, ?_, ?_⟩
  · simpa [Stamp.text, tsLen] using l₆
  · exact slice_append [] p.year _ rfl hy
  · exact (slice_next_iff hy rfl).mpr ⟨_, _, e₁, rfl, hmo⟩
  · have := (slice_next_iff (r := p.afterMonth :: (p.day ++ p.afterDay :: (p.hour ++
      p.afterHour :: (p.minute ++ p.afterMinute :: p.second)))) (a := 8) (b := 10) l₂ rfl).mpr
      ⟨_, _, e₂, rfl, hd⟩
    simpa [Stamp.text] using this
  · have := (slice_next_iff (r := p.afterDay :: (p.hour ++
      p.afterHour :: (p.minute ++ p.afterMinute :: p.second))) (a := 11) (b := 13) l₃ rfl).mpr
      ⟨_, _, e₃, rfl, hh⟩
    simpa [Stamp.text] using this
  · have := (slice_next_iff (r := p.afterHour :: (p.minute ++ p.afterMinute :: p.second))
      (a := 14) (b := 16) l₄ rfl).mpr ⟨_, _, e₄, rfl, hmi⟩
    simpa [Stamp.text] using this
  · have := (slice_next_iff (r := p.afterMinute :: (p.second ++ [])) (a := 17) (b := 19) l₅
      rfl).mpr ⟨_, _, e₅, rfl, hs⟩
    simpa [Stamp.text] using this

theorem reads_year {m : List Char} :
    reads true m = true ↔ ∃ year, parseSigned (2 ^ 31) (2 ^ 31 - 1) m = some year := by
  rw [reads, if_pos rfl, Option.isSome_iff_exists]

/-- 19 bytes are taken for a timestamp if and only if they are numbers in range at the places of
one. -/
theorem parseLocalTimestamp_eq_some_iff (off : ℤ → ℤ) {ts : List Char} (hts : byteLen ts = tsLen) :
    (∃ t, parseLocalTimestamp off ts = .ok (some t)) ↔ ∃ p : Stamp, ts = p.text ∧ p.InRange := by
  rw [parseLocalTimestamp, if_neg (by omega)]
  simp only [andThen_eq_some_iff, map_slice_eq_some_iff, number_eq_some_iff]
  constructor
  · rintro ⟨t, year, ⟨y, hy, vy⟩, month, ⟨mo, hmo, nmo, -⟩, day, ⟨d, hd, nd, bd⟩, hour,
      ⟨h, hh, nh, -⟩, minute, ⟨mi, hmi, nmi, -⟩, second, ⟨sec, hs, ns, -⟩, hval⟩
    obtain ⟨c₁, c₂, c₃, c₄, c₅, rfl, ⟨ly, lmo, ld, lh, lmi, ls⟩, hseps⟩ :=
      exists_stamp_of_slices hts hy hmo hd hh hmi hs
    split_ifs at hval with hr
    · cases hval
    · push Not at hr
      obtain ⟨hr1, hr2, hr3, hr4, hr5⟩ := hr
      refine ⟨_, rfl, ⟨ly, reads_year.mpr ⟨year, vy⟩⟩, ⟨lmo, month, nmo, hr1⟩,
        ⟨ld, day, nd, hr2, bd⟩, ⟨lh, hour, nh, Nat.zero_le _, hr3⟩,
        ⟨lmi, minute, nmi, Nat.zero_le _, hr4⟩, ⟨ls, second, ns, Nat.zero_le _, hr5⟩, hseps⟩
  · rintro ⟨p, rfl, hp⟩
    obtain ⟨-, hy, hmo, hd, hh, hmi, hs⟩ := slices_of_stamp hp
    obtain ⟨year, hyear⟩ := reads_year.mp hp.year.2
    obtain ⟨-, month, nmo, hmo1, hmo2⟩ := hp.month
    obtain ⟨-, day, nd, hd1, hd2⟩ := hp.day
    obtain ⟨-, hour, nh, -, hh2⟩ := hp.hour
    obtain ⟨-, minute, nmi, -, hmi2⟩ := hp.minute
    obtain ⟨-, second, ns, -, hs2⟩ := hp.second
    have hin : ¬ (¬ (1 ≤ month ∧ month ≤ 12) ∨ day < 1 ∨ 23 < hour ∨ 59 < minute ∨
        59 < second) := by omega
    refine ⟨_, year, ⟨_, hy, hyear⟩, month, ⟨_, hmo, nmo, by omega⟩, day, ⟨_, hd, nd, hd2⟩, hour,
      ⟨_, hh, nh, by omega⟩, minute, ⟨_, hmi, nmi, by omega⟩, second, ⟨_, hs, ns, by omega⟩,
      if_neg hin⟩

/-- A line is taken for a header if and only if it has numbers in range at the places of a
timestamp, and more behind them. -/
theorem parseLine_eq_some_iff (off : ℤ → ℤ) (s : List Char) :
    (∃ r, parseLine off s = .ok (some r)) ↔
      ∃ (p : Stamp) (rest : List Char), s = p.text ++ rest ∧ rest ≠ [] ∧ p.InRange := by
  rw [parseLine]
  split_ifs with hlen
  · refine iff_of_false (by simp) ?_
    rintro ⟨p, rest, rfl, hrest, hp⟩
    have := byteLen_pos_iff.mpr hrest
    rw [byteLen_append, (slices_of_stamp hp).1] at hlen
    omega
  · cases hs : splitAtByte tsLen s with
    | none =>
        refine iff_of_false (by simp) ?_
        rintro ⟨p, rest, rfl, -, hp⟩
        rw [← (slices_of_stamp hp).1, splitAtByte_append] at hs
        cases hs
    | some q =>
        obtain ⟨ts, rest⟩ := q
        obtain ⟨rfl, hts⟩ := append_of_splitAtByte hs
        have hrest : rest ≠ [] := by
          rw [byteLen_append, hts] at hlen
          exact byteLen_pos_iff.mp (by omega)
        simp only [andThen_eq_some_iff]
        constructor
        · rintro ⟨r, t, ht, -⟩
          obtain ⟨p, rfl, hp⟩ := (parseLocalTimestamp_eq_some_iff off hts).mp ⟨t, ht⟩
          exact ⟨p, rest, rfl, hrest, hp⟩
        · rintro ⟨p, rest', he, -, hp⟩
          rw [he, ← (slices_of_stamp hp).1, splitAtByte_append] at hs
          obtain ⟨rfl, -⟩ := Prod.mk.inj (Option.some.inj hs)
          obtain ⟨t, ht⟩ := (parseLocalTimestamp_eq_some_iff off hts).mpr ⟨p, rfl, hp⟩
          exact ⟨_, t, ht, rfl⟩

/-! ### Lines with a timestamp -/

/-- The days of a month of the Gregorian calendar. -/
def daysIn (year month : ℕ) : ℕ :=
  if month = 2 then
    if year % 4 = 0 ∧ (year % 100 ≠ 0 ∨ year % 400 = 0) then 29 else 28
  else if month = 4 ∨ month = 6 ∨ month = 9 ∨ month = 11 then 30
  else 31

/-- The line begins with a date and a time of day, and goes on. -/
def HasTimestamp (s : List Char) : Prop :=
  ∃ (f : Fields) (rest : List Char), f.Valid ∧ f.day ≤ daysIn f.year f.month ∧
    s = f.text ++ rest ∧ rest ≠ []

/-- The fields are digits, with the separators of a timestamp between them, and the month has the
day. -/
structure Stamp.Proper (p : Stamp) : Prop where
  digits : ∀ m ∈ [p.year, p.month, p.day, p.hour, p.minute, p.second], ∀ c ∈ m, c.isDigit = true
  separators : p.afterYear = '-' ∧ p.afterMonth = '-' ∧ p.afterDay = ' ' ∧ p.afterHour = ':' ∧
    p.afterMinute = ':'
  day : digitsVal p.day ≤ daysIn (digitsVal p.year) (digitsVal p.month)

/-- A timestamp, cut at its places. -/
def Fields.stamp (f : Fields) : Stamp where
  year := padZero 4 f.year
  afterYear := '-'
  month := padZero 2 f.month
  afterMonth := '-'
  day := padZero 2 f.day
  afterDay := ' '
  hour := padZero 2 f.hour
  afterHour := ':'
  minute := padZero 2 f.minute
  afterMinute := ':'
  second := padZero 2 f.second

theorem twoBytes_padZero {lo hi n : ℕ} (h : n < 100) (hlo : lo ≤ n) (hhi : n ≤ hi) :
    TwoBytes lo hi (padZero 2 n) :=
  ⟨byteLen_padZero (by decide) h, n,
    ⟨padZero 2 n, Or.inl rfl, padZero_ne_nil, isDigit_of_mem_padZero, digitsVal_padZero 2 n⟩,
    hlo, hhi⟩

theorem Fields.inRange_stamp {f : Fields} (h : f.Valid) : f.stamp.InRange where
  year := by
    have := h.year
    have hread : reads true (padZero 4 f.year) = true :=
      reads_year.mpr ⟨f.year, parseSigned_padZero (by omega)⟩
    exact ⟨byteLen_padZero (by decide) h.year, hread⟩
  month := twoBytes_padZero (by have := h.month.2; omega) h.month.1 h.month.2
  day := twoBytes_padZero h.day.2 h.day.1 (by have := h.day.2; omega)
  hour := twoBytes_padZero (by have := h.hour; omega) (Nat.zero_le _) h.hour
  minute := twoBytes_padZero (by have := h.minute; omega) (Nat.zero_le _) h.minute
  second := twoBytes_padZero (by have := h.second; omega) (Nat.zero_le _) h.second
  separators := by
    simp only [Fields.stamp]
    decide

theorem Fields.proper_stamp {f : Fields} (h : f.day ≤ daysIn f.year f.month) : f.stamp.Proper where
  digits := by
    intro m hm
    simp only [List.mem_cons, List.not_mem_nil, or_false] at hm
    rcases hm with rfl | rfl | rfl | rfl | rfl | rfl <;> exact isDigit_of_mem_padZero
  separators := ⟨rfl, rfl, rfl, rfl, rfl⟩
  day := by
    simp only [Fields.stamp, digitsVal_padZero]
    exact h

/-- The fields of a stamp that is a timestamp. -/
def Stamp.fields (p : Stamp) : Fields where
  year := digitsVal p.year
  month := digitsVal p.month
  day := digitsVal p.day
  hour := digitsVal p.hour
  minute := digitsVal p.minute
  second := digitsVal p.second

theorem Stamp.fields_spec {p : Stamp} (hp : p.InRange) (h : p.Proper) :
    p.fields.Valid ∧ p.fields.day ≤ daysIn p.fields.year p.fields.month ∧
      p.fields.text = p.text := by
  have hdig := h.digits
  simp only [List.forall_mem_cons, List.not_mem_nil, false_implies, implies_true, and_true]
    at hdig
  obtain ⟨dy, dmo, dd, dh, dmi, ds⟩ := hdig
  have hlen : ∀ {m : List Char} {k : ℕ}, byteLen m = k → (∀ c ∈ m, c.isDigit = true) →
      m.length = k := by
    intro m k hk hm
    rw [← hk, byteLen_eq_length fun c hc => utf8Size_of_isDigit (hm c hc)]
  have htwo : ∀ {lo hi : ℕ} {m : List Char}, TwoBytes lo hi m → (∀ c ∈ m, c.isDigit = true) →
      padZero 2 (digitsVal m) = m ∧ digitsVal m < 100 ∧ lo ≤ digitsVal m ∧ digitsVal m ≤ hi := by
    rintro lo hi m ⟨hm, n, hn, hlo, hhi⟩ hd
    have hl := hlen hm hd
    have hlt := digitsVal_lt hd
    rw [hl] at hlt
    rw [← digitsVal_of_isNumeral hn hd] at hlo hhi
    exact ⟨padZero_digitsVal (by decide) hl hd, hlt, hlo, hhi⟩
  have ly := hlen hp.year.1 dy
  have hylt := digitsVal_lt dy
  rw [ly] at hylt
  obtain ⟨tmo, -, hmo⟩ := htwo hp.month dmo
  obtain ⟨td, hdlt, hd, -⟩ := htwo hp.day dd
  obtain ⟨th, -, -, hh⟩ := htwo hp.hour dh
  obtain ⟨tmi, -, -, hmi⟩ := htwo hp.minute dmi
  obtain ⟨ts, -, -, hs⟩ := htwo hp.second ds
  refine ⟨⟨hylt, hmo, ⟨hd, hdlt⟩, hh, hmi, hs⟩, h.day, ?_⟩
  obtain ⟨e₁, e₂, e₃, e₄, e₅⟩ := h.separators
  simp only [Fields.text, Stamp.fields, Stamp.text, tmo, td, th, tmi, ts, e₁, e₂, e₃, e₄, e₅,
    padZero_digitsVal (w := 4) (by decide) ly dy]

/-- A line is cut in one way. -/
theorem stamp_unique {p q : Stamp} {r r' : List Char} (hp : p.InRange) (hq : q.InRange)
    (h : p.text ++ r = q.text ++ r') : p = q := by
  obtain ⟨lp, y, mo, d, hr, mi, s⟩ := slices_of_stamp hp
  obtain ⟨lq, y', mo', d', hr', mi', s'⟩ := slices_of_stamp hq
  have ht : p.text = q.text := by
    have h₁ := splitAtByte_append p.text r
    rw [h, lp, ← lq, splitAtByte_append] at h₁
    exact (Prod.mk.inj (Option.some.inj h₁)).1.symm
  rw [← ht] at y' mo' d' hr' mi' s'
  have inj : ∀ {x : Except Panic (List Char)} {a b : List Char}, x = .ok a → x = .ok b → a = b := by
    intro x a b ha hb
    exact Except.ok.inj (ha.symm.trans hb)
  have e₁ := inj y y'
  have e₂ := inj mo mo'
  have e₃ := inj d d'
  have e₄ := inj hr hr'
  have e₅ := inj mi mi'
  have e₆ := inj s s'
  obtain ⟨_, _, _, _, _, _, _, _, _, _, _⟩ := p
  obtain ⟨_, _, _, _, _, _, _, _, _, _, _⟩ := q
  simp only at e₁ e₂ e₃ e₄ e₅ e₆
  subst e₁ e₂ e₃ e₄ e₅ e₆
  simpa [Stamp.text] using ht

theorem hasTimestamp_iff {s : List Char} :
    HasTimestamp s ↔
      ∃ (p : Stamp) (rest : List Char), s = p.text ++ rest ∧ rest ≠ [] ∧ p.InRange ∧ p.Proper := by
  constructor
  · rintro ⟨f, rest, hv, hday, rfl, hrest⟩
    exact ⟨f.stamp, rest, rfl, hrest, Fields.inRange_stamp hv, Fields.proper_stamp hday⟩
  · rintro ⟨p, rest, rfl, hrest, hp, h⟩
    obtain ⟨hv, hday, ht⟩ := Stamp.fields_spec hp h
    exact ⟨p.fields, rest, hv, hday, by rw [ht], hrest⟩

/-! ### What a line must be -/

/-- **Reading a line**: `parse_line` and `parse_banner_middle` return, and the lines taken for
headers are those with a timestamp, if and only if

* the fields of the first 19 bytes lie on character boundaries, up to the first without a number;
* the same holds of the 19 bytes before the tail of a banner, which begin at a boundary;
* numbers in range at the places of a timestamp are one: no signs, the separators in place, and a
  day that the month has. -/
theorem parse_lines_iff (off : ℤ → ℤ) (s : List Char) :
    (Returns (parseLine off s) ∧ Returns (parseBannerMiddle off s) ∧
        ((∃ r, parseLine off s = .ok (some r)) ↔ HasTimestamp s)) ↔
      (∀ ts rest, s = ts ++ rest → byteLen ts = tsLen → rest ≠ [] → Cuttable ts spans) ∧
        (∀ inner, s = inner ++ bannerTail → tsLen ≤ byteLen inner →
          ∃ head ts, inner = head ++ ts ∧ byteLen ts = tsLen ∧ Cuttable ts spans) ∧
        (∀ (p : Stamp) (rest : List Char), s = p.text ++ rest → rest ≠ [] → p.InRange →
          p.Proper) := by
  rw [returns_parseLine_iff, returns_parseBannerMiddle_iff, parseLine_eq_some_iff, hasTimestamp_iff]
  refine and_congr_right fun _ => and_congr_right fun _ => ?_
  constructor
  · rintro h p rest rfl hrest hp
    obtain ⟨q, rest', he, -, hq, hproper⟩ := h.mp ⟨p, rest, rfl, hrest, hp⟩
    exact stamp_unique hp hq he ▸ hproper
  · intro h
    constructor
    · rintro ⟨p, rest, rfl, hrest, hp⟩
      exact ⟨p, rest, rfl, hrest, hp, h p rest rfl hrest hp⟩
    · rintro ⟨p, rest, rfl, hrest, hp, -⟩
      exact ⟨p, rest, rfl, hrest, hp⟩

/-- A line of user output that the reader panics at: byte 4 is inside the `é`. -/
theorem accent_panics :
    parseLine (fun _ => 0) "café is open until midnight".toList = .error .charBoundary ∧
      ¬ (Returns (parseLine (fun _ => 0) "café is open until midnight".toList) ∧
        Returns (parseBannerMiddle (fun _ => 0) "café is open until midnight".toList) ∧
        ((∃ r, parseLine (fun _ => 0) "café is open until midnight".toList = .ok (some r)) ↔
          HasTimestamp "café is open until midnight".toList)) := by
  have h : parseLine (fun _ => 0) "café is open until midnight".toList = .error .charBoundary := by
    decide +kernel
  refine ⟨h, ?_⟩
  rintro ⟨⟨r, hr⟩, -⟩
  rw [h] at hr
  cases hr

/-- The last of February, with slashes, is taken for the second of March. -/
example : parseLine (fun _ => 0) "2023/02/30 00.00.00 ready".toList =
    .ok (some (1677715200, "ready".toList)) := by decide +kernel

end Unitpm.Logs
