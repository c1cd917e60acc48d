import Unitpm.LogTime

/-! # Log entries

`cli::commands::logs::entry` reads the text of a log file as entries: a line with a timestamp starts
one, a line without folds into the entry before it, and the three lines of a lifecycle banner (a
rule, a middle line with a timestamp at its end, a rule) are one entry of their own.

The daemon writes banners with `write_banner` of `daemon::manager::logwriter` through a
`TimestampWriter`, which puts a timestamp in front of every line.  A rule with a timestamp in front
is no rule: `banner_not_read_back`. -/

namespace Unitpm.Logs

open Rust.Str Utf8

/-! ### Reading entries -/

/-- One log record. -/
structure Entry where
  tsUnix : Option ℤ
  label : String
  body : List Char
  seq : ℕ
  hasTs : Bool
deriving DecidableEq

/-- `is_banner_rule`. -/
def isBannerRule (line : List Char) : Bool :=
  if byteLen line < 8 then false else line.all fun c => c = '='

/-- The last four characters of a banner's middle line. -/
def bannerTail : List Char := [' ', ' ', '=', '=']

/-- `parse_banner_middle`. -/
def parseBannerMiddle (localtimeOffset : ℤ → ℤ) (line : List Char) : Except Panic (Option ℤ) :=
  if ¬ bannerTail <:+ line then .ok none
  else if byteLen line < bannerTail.length + tsLen then .ok none
  else
    let inner := line.take (line.length - bannerTail.length)
    match splitAtByte (byteLen inner - tsLen) inner with
    | none => .error .charBoundary
    | some (_, ts) => parseLocalTimestamp localtimeOffset ts

section Reading

variable (localtimeOffset : ℤ → ℤ) (label : String)

/-- `try_consume_banner`. -/
def tryConsumeBanner (rule1 mid rule2 : List Char) (seq : ℕ) : Except Panic (Option Entry) :=
  if isBannerRule rule1 = false ∨ isBannerRule rule2 = false then .ok none
  else
    andThen (parseBannerMiddle localtimeOffset mid) fun ts =>
      .ok (some
        { tsUnix := some ts
          label := label
          body := rule1 ++ '\n' :: (mid ++ '\n' :: rule2)
          seq := seq
          hasTs := true })

/-- A banner that starts with `line`, if two more lines follow it. -/
def bannerAt (line : List Char) (rest : List (List Char)) (seq : ℕ) :
    Except Panic (Option Entry) :=
  match rest with
  | mid :: rule2 :: _ =>
      if isBannerRule line then tryConsumeBanner localtimeOffset label line mid rule2 seq
      else .ok none
  | _ => .ok none

/-- A line folded into the entry before it. -/
def Entry.fold (line : List Char) (e : Entry) : Entry := { e with body := e.body ++ '\n' :: line }

/-- A line that is not part of a banner: a new entry, a continuation of the last one, or, at the
head of the file, an entry without a timestamp. -/
def takeLine (line : List Char) (out : List Entry) (seq : ℕ) : Except Panic (List Entry × ℕ) :=
  match parseLine localtimeOffset line with
  | .error p => .error p
  | .ok (some (ts, body)) => .ok (out ++ [⟨some ts, label, body, seq, true⟩], seq + 1)
  | .ok none =>
      match out.getLast? with
      | some last => .ok (out.dropLast ++ [last.fold line], seq)
      | none => .ok ([⟨none, label, line, seq, false⟩], seq + 1)

/-- The loop of `read_entries`, with the number of lines that a banner has already taken. -/
def readFrom : ℕ → List (List Char) → List Entry → ℕ → Except Panic (List Entry × ℕ)
  | _, [], out, seq => .ok (out, seq)
  | skip + 1, _ :: rest, out, seq => readFrom skip rest out seq
  | 0, line :: rest, out, seq =>
      if line = [] then readFrom 0 rest out seq
      else
        match bannerAt localtimeOffset label line rest seq with
        | .error p => .error p
        | .ok (some e) => readFrom 2 rest (out ++ [e]) (seq + 1)
        | .ok none =>
            match takeLine localtimeOffset label line out seq with
            | .error p => .error p
            | .ok (out, seq) => readFrom 0 rest out seq

/-- `read_entries`. -/
def readEntries (input : List Char) (startSeq : ℕ) : Except Panic (List Entry × ℕ) :=
  readFrom localtimeOffset label 0 (input.splitOn '\n') [] startSeq

end Reading

/-! ### Writing banners -/

/-- `BANNER_WIDTH`. -/
def bannerWidth : ℕ := 80

/-- The rule of a banner. -/
def bannerRule : List Char := List.replicate bannerWidth '='

/-- The middle line of a banner written at `now`. -/
def bannerMiddle (now : ℕ) (event detail : List Char) : List Char :=
  let left := "==  ".toList ++ event ++ (if detail = [] then [] else "  ".toList ++ detail) ++
    "  ".toList
  let right := "  ".toList ++ formatNow now ++ "  ==".toList
  let fill := max (bannerWidth - (byteLen left + byteLen right)) 4
  left ++ List.replicate fill '=' ++ right

/-- The `write_all` calls of `write_banner`. -/
def bannerWrites (now : ℕ) (event detail : List Char) : List (List Char) :=
  [bannerRule, ['\n'], bannerMiddle now event detail, ['\n'], bannerRule, ['\n']]

/-- `MAX_LOG_BUF`. -/
def maxLogBuf : ℕ := 2 ^ 20

/-- `TimestampWriter`, with what it has written to the file. -/
structure TimestampWriter where
  buf : List UInt8
  written : List UInt8

/-- The loop of `write`: the lines that are complete, each behind the timestamp, and the rest; a
rest that is too long is made a line. -/
def stampLines (ts : List UInt8) : List UInt8 → List UInt8 → List UInt8 × List UInt8
  | cur, [] => if maxLogBuf < cur.length then (ts ++ cur ++ [lineFeed], []) else ([], cur)
  | cur, b :: l =>
      if b = lineFeed then
        let r := stampLines ts [] l
        (ts ++ cur ++ lineFeed :: r.1, r.2)
      else stampLines ts (cur ++ [b]) l

/-- `TimestampWriter::write`, when `ts_prefix` returns `ts`. -/
def TimestampWriter.write (w : TimestampWriter) (ts : List Char) (p : List UInt8) :
    TimestampWriter :=
  let r := stampLines (encode ts) [] (w.buf ++ p)
  { buf := r.2, written := w.written ++ r.1 }

/-- A banner through a writer, as `stop`, `restart_locked` and `start_process` do it: `write_banner`
into a `Vec` at `now`, and one write of the whole at `later`. -/
def TimestampWriter.writeBanner (w : TimestampWriter) (now later : ℕ) (event detail : List Char) :
    TimestampWriter :=
  w.write (tsPrefix later) (encode (bannerWrites now event detail).flatten)

/-! ### What the writer leaves of a banner -/

theorem newline_notMem_formatNow (now : ℕ) : '\n' ∉ formatNow now := by
  have hd : ∀ w n, '\n' ∉ padZero w n := fun w n h =>
    absurd (isDigit_of_mem_padZero _ h) (by decide)
  rw [formatNow_eq]
  simp [Fields.text, hd]

theorem newline_notMem_tsPrefix (now : ℕ) : '\n' ∉ tsPrefix now := by
  simp [tsPrefix, newline_notMem_formatNow]

theorem newline_notMem_bannerRule : '\n' ∉ bannerRule := by
  simp [bannerRule, List.mem_replicate]

theorem newline_notMem_bannerMiddle {event detail : List Char} (now : ℕ) (he : '\n' ∉ event)
    (hd : '\n' ∉ detail) : '\n' ∉ bannerMiddle now event detail := by
  have h := newline_notMem_formatNow now
  unfold bannerMiddle
  simp only [List.mem_append, List.mem_replicate, not_or]
  refine ⟨⟨⟨⟨⟨by decide, he⟩, ?_⟩, by decide⟩, fun h => absurd h.2 (by decide)⟩, ⟨by decide, h⟩,
    by decide⟩
  split
  · simp
  · simp [hd]

theorem stampLines_append {p : List UInt8} (hp : lineFeed ∉ p) (ts cur m : List UInt8) :
    stampLines ts cur (p ++ m) = stampLines ts (cur ++ p) m := by
  induction p generalizing cur with
  | nil => simp
  | cons b p ih =>
      rw [List.mem_cons, not_or] at hp
      rw [List.cons_append, stampLines, if_neg (Ne.symm hp.1), ih hp.2]
      simp

theorem stampLines_unlines {ls : List (List Char)} (h : ∀ l ∈ ls, '\n' ∉ l) (ts : List Char) :
    stampLines (encode ts) [] (encode (unlines ls)) =
      (encode (unlines (ls.map (ts ++ ·))), []) := by
  induction ls with
  | nil => rw [unlines_nil, encode_nil, stampLines, if_neg (by decide)]; rfl
  | cons l ls ih =>
      have hl : lineFeed ∉ encode l := fun hb => h l (by simp) (lineFeed_mem_encode.mp hb)
      have he : encode (unlines (l :: ls)) = encode l ++ lineFeed :: encode (unlines ls) := by
        simp [unlines]
      rw [he, stampLines_append hl, stampLines, if_pos rfl, ih fun m hm => h m (by simp [hm])]
      simp [unlines]

theorem write_unlines {ls : List (List Char)} (h : ∀ l ∈ ls, '\n' ∉ l) (ts : List Char)
    (written : List UInt8) :
    TimestampWriter.write ⟨[], written⟩ ts (encode (unlines ls)) =
      ⟨[], written ++ encode (unlines (ls.map (ts ++ ·)))⟩ := by
  rw [TimestampWriter.write, List.nil_append, stampLines_unlines h]

theorem flatten_bannerLines (r m : List Char) :
    [r, ['\n'], m, ['\n'], r, ['\n']].flatten = unlines [r, m, r] := by
  simp [unlines]

theorem written_bannerLines {r m : List Char} (hr : '\n' ∉ r) (hm : '\n' ∉ m) (ts : List Char) :
    (TimestampWriter.write ⟨[], []⟩ ts (encode (unlines [r, m, r]))).written =
      encode (unlines [ts ++ r, ts ++ m, ts ++ r]) := by
  rw [write_unlines (by simp [hr, hm])]
  rfl

theorem written_writeBanner {event detail : List Char} (he : '\n' ∉ event) (hd : '\n' ∉ detail)
    (now later : ℕ) :
    (TimestampWriter.writeBanner ⟨[], []⟩ now later event detail).written =
      encode (unlines [tsPrefix later ++ bannerRule,
        tsPrefix later ++ bannerMiddle now event detail, tsPrefix later ++ bannerRule]) := by
  rw [TimestampWriter.writeBanner, bannerWrites, flatten_bannerLines]
  exact written_bannerLines newline_notMem_bannerRule (newline_notMem_bannerMiddle now he hd) _

/-! ### Reading around a banner -/

section Reading

variable {off : ℤ → ℤ} {label : String} {skip seq n : ℕ} {out es : List Entry}

/-- A line that is never the middle nor the end of a banner. -/
structure Inert (off : ℤ → ℤ) (x : List Char) : Prop where
  rule : isBannerRule x = false
  middle : parseBannerMiddle off x = .ok none

theorem inert_nil (off : ℤ → ℤ) : Inert off [] :=
  ⟨by decide, by simp [parseBannerMiddle, bannerTail]⟩

theorem bannerAt_of_not_rule {line : List Char} (h : isBannerRule line = false)
    (rest : List (List Char)) : bannerAt off label line rest seq = .ok none := by
  unfold bannerAt
  split
  · rw [if_neg (by simp [h])]
  · rfl

/-- Whether a banner starts at a line does not depend on what comes after an inert line. -/
theorem bannerAt_append {x : List Char} (hx : Inert off x) (line : List Char)
    (ls rest : List (List Char)) :
    bannerAt off label line (ls ++ x :: rest) seq = bannerAt off label line ls seq := by
  match ls with
  | [] =>
      cases rest with
      | nil => rfl
      | cons r rest =>
          simp only [bannerAt, List.nil_append, tryConsumeBanner, hx.middle, andThen]
          split <;> [split <;> rfl; rfl]
  | [m] =>
      simp only [bannerAt, List.cons_append, List.nil_append, tryConsumeBanner, hx.rule, or_true,
        if_true]
      split <;> rfl
  | m :: r :: ls => rfl

theorem ne_nil_of_isBannerRule {r : List Char} (hr : isBannerRule r = true) : r ≠ [] := by
  rintro rfl
  cases hr

theorem length_of_bannerAt {line : List Char} {ls : List (List Char)} {e : Entry}
    (h : bannerAt off label line ls seq = .ok (some e)) : 2 ≤ ls.length := by
  match ls, h with
  | m :: r :: ls, _ => simp

theorem readFrom_fold {line : List Char} {rest : List (List Char)} {o : List Entry} {e : Entry}
    (hne : line ≠ []) (hb : bannerAt off label line rest seq = .ok none)
    (hp : parseLine off line = .ok none) :
    readFrom off label 0 (line :: rest) (o ++ [e]) seq =
      readFrom off label 0 rest (o ++ [e.fold line]) seq := by
  rw [readFrom, if_neg hne, hb]
  simp only [takeLine, hp, List.getLast?_concat, List.dropLast_concat]

/-- Reading is cut at an inert line: the lines before it are read as if they were all. -/
theorem readFrom_append {x : List Char} (hx : Inert off x) {ls : List (List Char)}
    (hskip : skip ≤ ls.length) (rest : List (List Char)) :
    readFrom off label skip (ls ++ x :: rest) out seq =
      match readFrom off label skip ls out seq with
      | .error p => .error p
      | .ok (out, seq) => readFrom off label 0 (x :: rest) out seq := by
  induction ls generalizing skip out seq with
  | nil =>
      obtain rfl : skip = 0 := by simpa using hskip
      rw [List.nil_append, readFrom]
  | cons line ls ih =>
      cases skip with
      | succ k => exact ih (by simpa using hskip)
      | zero =>
          rw [List.cons_append, readFrom, readFrom, bannerAt_append hx]
          by_cases hl : line = []
          · rw [if_pos hl, if_pos hl]
            exact ih (Nat.zero_le _)
          · rw [if_neg hl, if_neg hl]
            cases hb : bannerAt off label line ls seq with
            | error p => rfl
            | ok o =>
                cases o with
                | some e => exact ih (length_of_bannerAt hb)
                | none =>
                    cases takeLine off label line out seq with
                    | error p => rfl
                    | ok r => exact ih (Nat.zero_le _)

theorem readEntries_unlines {ls : List (List Char)} (h : ∀ l ∈ ls, '\n' ∉ l) :
    readEntries off label (unlines ls) seq = readFrom off label 0 ls [] seq := by
  have hs := splitOn_unlines_append h []
  rw [List.append_nil, List.splitOn_nil] at hs
  rw [readEntries, hs, readFrom_append (inert_nil off) (Nat.zero_le _)]
  cases readFrom off label 0 ls [] seq with
  | error p => rfl
  | ok r => simp [readFrom]

/-- What later lines do to an entry: they may fold into it. -/
def Extends (a a' : Entry) : Prop :=
  a'.tsUnix = a.tsUnix ∧ ∃ s, a'.body = a.body ++ s ∧ (s = [] ∨ s.head? = some '\n')

theorem Extends.refl (a : Entry) : Extends a a := ⟨rfl, [], by simp, Or.inl rfl⟩

theorem Extends.of_fold {a a' : Entry} {line : List Char} (h : Extends (a.fold line) a') :
    Extends a a' := by
  obtain ⟨ht, s, hb, -⟩ := h
  exact ⟨ht, '\n' :: (line ++ s), by simp [hb, Entry.fold], Or.inr rfl⟩

/-- Entries are only added at the end, and only the last one changes. -/
theorem readFrom_extends {ls : List (List Char)} {o : List Entry} {a : Entry}
    (h : readFrom off label skip ls (o ++ [a]) seq = .ok (es, n)) :
    ∃ a' rest, es = o ++ a' :: rest ∧ Extends a a' := by
  induction ls generalizing skip o a seq with
  | nil =>
      obtain ⟨rfl, -⟩ : o ++ [a] = es ∧ seq = n := by simpa [readFrom] using h
      exact ⟨a, [], rfl, Extends.refl a⟩
  | cons line ls ih =>
      -- a new entry leaves the one before it as it is
      have hnew : ∀ {k b m}, readFrom off label k ls (o ++ [a] ++ [b]) m = .ok (es, n) →
          ∃ a' rest, es = o ++ a' :: rest ∧ Extends a a' := by
        intro k b m h
        obtain ⟨b', rest, rfl, -⟩ := ih h
        exact ⟨a, b' :: rest, by simp, Extends.refl a⟩
      cases skip with
      | succ k => exact ih h
      | zero =>
          rw [readFrom] at h
          split at h
          · exact ih h
          · split at h
            · cases h
            · exact hnew h
            · rw [takeLine, List.getLast?_concat, List.dropLast_concat] at h
              cases hp : parseLine off line with
              | error p => simp [hp] at h
              | ok r =>
                  cases r with
                  | some p =>
                      simp only [hp] at h
                      exact hnew h
                  | none =>
                      simp only [hp] at h
                      obtain ⟨a', rest, rfl, he⟩ := ih h
                      exact ⟨a', rest, rfl, he.of_fold⟩

end Reading

/-! ### Banners through the writer -/

theorem parseLine_body {off : ℤ → ℤ} {line body : List Char} {ts : ℤ}
    (h : parseLine off line = .ok (some (ts, body))) :
    body <:+ line ∧ body.length < line.length := by
  unfold parseLine at h
  split at h
  · cases h
  · split at h
    · cases h
    · rename_i a b hs
      obtain ⟨rfl, ha⟩ := append_of_splitAtByte hs
      have hbody : trimStart b = body := by
        unfold andThen at h
        split at h
        · cases h
        · cases h
        · exact (Prod.mk.inj (Option.some.inj (Except.ok.inj h))).2
      have hsuf : body <:+ b := hbody ▸ List.dropWhile_suffix _
      have hpos : a ≠ [] := by
        rintro rfl
        cases ha
      refine ⟨hsuf.trans (List.suffix_append a b), ?_⟩
      have := hsuf.length_le
      have := List.length_pos_iff.mpr hpos
      rw [List.length_append]
      omega

/-- Two texts that agree on a first line agree on where it ends. -/
theorem eq_of_prefix_line {a b x s : List Char} (ha : '\n' ∉ a) (hb : '\n' ∉ b)
    (hs : s = [] ∨ s.head? = some '\n') (h : a ++ '\n' :: x <+: b ++ s) :
    a = b ∧ ∃ s', s = '\n' :: s' ∧ x <+: s' := by
  induction a generalizing b with
  | nil =>
      cases b with
      | nil =>
          obtain ⟨r, hr⟩ := h
          exact ⟨rfl, x ++ r, by simpa using hr.symm, List.prefix_append x r⟩
      | cons d b =>
          have := (List.cons_prefix_cons.mp h).1
          exact absurd this (by rintro rfl; exact hb (by simp))
  | cons c a ih =>
      have hc : c ≠ '\n' := by
        rintro rfl
        exact ha (by simp)
      cases b with
      | nil =>
          exfalso
          rcases hs with rfl | hs
          · simp at h
          · obtain ⟨s', rfl⟩ : ∃ s', s = '\n' :: s' := by
              cases s with
              | nil => cases hs
              | cons d s' => exact ⟨s', by rw [Option.some.inj hs]⟩
            exact hc (List.cons_prefix_cons.mp h).1
      | cons d b =>
          obtain ⟨rfl, htail⟩ := List.cons_prefix_cons.mp h
          obtain ⟨rfl, hx⟩ := ih (fun e => ha (by simp [e])) (fun e => hb (by simp [e])) htail
          exact ⟨rfl, hx⟩

theorem isBannerRule_of_blank {l : List Char} (h : ' ' ∈ l) : isBannerRule l = false := by
  rw [isBannerRule]
  split
  · rfl
  · rw [Bool.eq_false_iff]
    intro hall
    have := List.all_eq_true.mp hall ' ' h
    simp at this

theorem inert_stamped_rule {off : ℤ → ℤ} {ts : List Char} (h : ' ' ∈ ts) :
    Inert off (ts ++ bannerRule) := by
  refine ⟨isBannerRule_of_blank (by simp [h]), ?_⟩
  rw [parseBannerMiddle, if_pos]
  intro hsuf
  have hr : bannerTail <:+ bannerRule := List.suffix_of_suffix_length_le hsuf
    (List.suffix_append ts bannerRule) (by decide)
  have : ' ' ∈ bannerRule := hr.subset (by decide)
  simp [bannerRule, List.mem_replicate] at this

/-- The banner is one entry, after the entries of the text before it: it has the timestamp of the
banner's middle line, and its text starts with the three lines, as the file has them or as
`write_banner` gives them to the writer. -/
def ReadsBanner (off : ℤ → ℤ) (label : String) (seq : ℕ) (middle before banner after : List Char) :
    Prop :=
  ∃ es₁ n₁ es n e rest ts,
    readEntries off label before seq = .ok (es₁, n₁) ∧
    readEntries off label (before ++ banner ++ after) seq = .ok (es, n) ∧
    es = es₁ ++ e :: rest ∧
    parseBannerMiddle off middle = .ok (some ts) ∧ e.tsUnix = some ts ∧
    (joinWith '\n' ((banner.splitOn '\n').take 3) <+: e.body ∨
      joinWith '\n' [bannerRule, middle, bannerRule] <+: e.body)

theorem readFrom_line {off : ℤ → ℤ} {label : String} {seq n : ℕ} {out es : List Entry}
    {line : List Char} {ls : List (List Char)} (hne : line ≠ []) (hr : isBannerRule line = false)
    (h : readFrom off label 0 (line :: ls) out seq = .ok (es, n)) :
    ∃ out' seq', takeLine off label line out seq = .ok (out', seq') ∧
      readFrom off label 0 ls out' seq' = .ok (es, n) := by
  rw [readFrom, if_neg hne, bannerAt_of_not_rule hr] at h
  cases ht : takeLine off label line out seq with
  | error p => simp [ht] at h
  | ok r => exact ⟨r.1, r.2, rfl, by simpa [ht] using h⟩

/-- The entry that comes next, if it has a timestamp, starts with a proper part of the first line,
and goes on, if at all, with the whole second line. -/
theorem body_of_next_entry {off : ℤ → ℤ} {label : String} {seq n : ℕ} {out es rest : List Entry}
    {e : Entry} {l₁ l₂ : List Char} {ls : List (List Char)} {t : ℤ} (hne₁ : l₁ ≠ [])
    (hne₂ : l₂ ≠ []) (hr₁ : isBannerRule l₁ = false) (hr₂ : isBannerRule l₂ = false)
    (h : readFrom off label 0 (l₁ :: l₂ :: ls) out seq = .ok (es, n)) (hes : es = out ++ e :: rest)
    (ht : e.tsUnix = some t) :
    ∃ body s, body <:+ l₁ ∧ body.length < l₁.length ∧ e.body = body ++ s ∧
      (s = [] ∨ ∃ s', s = '\n' :: (l₂ ++ s') ∧ (s' = [] ∨ s'.head? = some '\n')) := by
  obtain ⟨out₁, seq₁, ht₁, h₁⟩ := readFrom_line hne₁ hr₁ h
  obtain ⟨out₂, seq₂, ht₂, h₂⟩ := readFrom_line hne₂ hr₂ h₁
  rw [takeLine] at ht₁
  cases hp : parseLine off l₁ with
  | error p => simp [hp] at ht₁
  | ok r =>
      cases r with
      | some p =>
          obtain ⟨ts, body⟩ := p
          obtain ⟨hsuf, hlt⟩ := parseLine_body hp
          rw [hp] at ht₁
          obtain ⟨rfl, rfl⟩ := Prod.mk.inj (Except.ok.inj ht₁)
          rw [takeLine, List.getLast?_concat, List.dropLast_concat] at ht₂
          cases hp₂ : parseLine off l₂ with
          | error p => simp [hp₂] at ht₂
          | ok r₂ =>
              cases r₂ with
              | some p₂ =>
                  -- the second line starts an entry of its own
                  rw [hp₂] at ht₂
                  obtain ⟨rfl, rfl⟩ := Prod.mk.inj (Except.ok.inj ht₂)
                  obtain ⟨a', rest', rfl, -⟩ := readFrom_extends h₂
                  rw [List.append_assoc] at hes
                  obtain ⟨rfl, -⟩ := List.cons.inj (List.append_cancel_left hes)
                  exact ⟨body, [], hsuf, hlt, by simp, Or.inl rfl⟩
              | none =>
                  rw [hp₂] at ht₂
                  obtain ⟨rfl, rfl⟩ := Prod.mk.inj (Except.ok.inj ht₂)
                  obtain ⟨a', rest', rfl, -, s, hb, hs⟩ := readFrom_extends h₂
                  obtain ⟨rfl, -⟩ := List.cons.inj (List.append_cancel_left hes)
                  exact ⟨body, '\n' :: (l₂ ++ s), hsuf, hlt, by simp [hb, Entry.fold],
                    Or.inr ⟨s, rfl, hs⟩⟩
      | none =>
          -- without a timestamp the first line changes the entry before it, or has none itself
          exfalso
          rw [hp] at ht₁
          rcases List.eq_nil_or_concat out with rfl | ⟨o, last, rfl⟩
          · obtain ⟨rfl, rfl⟩ := Prod.mk.inj (Except.ok.inj ht₁)
            obtain ⟨a', rest', rfl, hts, -⟩ := readFrom_extends (o := []) h₁
            obtain ⟨rfl, -⟩ := List.cons.inj hes
            rw [ht] at hts
            cases hts
          · simp only [List.concat_eq_append, List.getLast?_concat, List.dropLast_concat] at ht₁ hes
            obtain ⟨rfl, rfl⟩ := Prod.mk.inj (Except.ok.inj ht₁)
            obtain ⟨a', rest', rfl, -, s, hb, -⟩ := readFrom_extends h₁
            rw [List.append_assoc] at hes
            obtain ⟨rfl, -⟩ := List.cons.inj (List.append_cancel_left hes)
            have := congrArg List.length hb
            simp [Entry.fold] at this

theorem joinWith_three (a b c : List Char) :
    joinWith '\n' [a, b, c] = a ++ '\n' :: (b ++ '\n' :: c) := by
  simp [joinWith, List.intercalate]

/-- Neither form of the three lines is the start of such an entry. -/
theorem not_banner_body {off : ℤ → ℤ} {label : String} {seq n : ℕ} {out es rest : List Entry}
    {e : Entry} {ts₁ ts₂ m : List Char} {ls : List (List Char)} {t : ℤ} (h₁ : ' ' ∈ ts₁)
    (h₂ : ' ' ∈ ts₂) (hn₁ : '\n' ∉ ts₁) (hn₂ : '\n' ∉ ts₂) (hm : '\n' ∉ m)
    (h : readFrom off label 0 ((ts₁ ++ bannerRule) :: (ts₂ ++ m) :: ls) out seq = .ok (es, n))
    (hes : es = out ++ e :: rest) (ht : e.tsUnix = some t) :
    (∀ x, ¬ (ts₁ ++ bannerRule) ++ '\n' :: x <+: e.body) ∧
      ∀ x, ¬ bannerRule ++ '\n' :: (m ++ '\n' :: x) <+: e.body := by
  have hne : ∀ {ts l : List Char}, ' ' ∈ ts → ts ++ l ≠ [] := by
    intro ts l h
    simp [List.ne_nil_of_mem h]
  have hr : '\n' ∉ bannerRule := newline_notMem_bannerRule
  have hl₁ : '\n' ∉ ts₁ ++ bannerRule := by simp [hn₁, hr]
  have hl₂ : '\n' ∉ ts₂ ++ m := by simp [hn₂, hm]
  obtain ⟨body, s, hsuf, hlt, hbody, hs⟩ := body_of_next_entry (hne h₁) (hne h₂)
    (isBannerRule_of_blank (by simp [h₁])) (isBannerRule_of_blank (by simp [h₂])) h hes ht
  have hb : '\n' ∉ body := fun hb => hl₁ (hsuf.subset hb)
  have hs' : s = [] ∨ s.head? = some '\n' := by
    rcases hs with rfl | ⟨s', rfl, -⟩
    · exact Or.inl rfl
    · exact Or.inr rfl
  rw [hbody]
  constructor
  · intro x hx
    obtain ⟨rfl, -⟩ := eq_of_prefix_line hl₁ hb hs' hx
    exact absurd hlt (lt_irrefl _)
  · intro x hx
    obtain ⟨rfl, s₁, rfl, hrest⟩ := eq_of_prefix_line hr hb hs' hx
    obtain hs | ⟨s₂, hs, hs₂⟩ := hs
    · cases hs
    · obtain rfl := (List.cons.inj hs).2
      have := congrArg List.length (eq_of_prefix_line hm hl₂ hs₂ hrest).1
      have := List.length_pos_of_mem h₂
      simp only [List.length_append] at *
      omega

/-- **A banner is never read back.**  The writer puts a timestamp in front of the rules, and a rule
with a timestamp in front of it starts an entry of its own. -/
theorem banner_not_read_back (off : ℤ → ℤ) (label : String) (seq now later : ℕ)
    (event detail banner : List Char) (he : '\n' ∉ event) (hd : '\n' ∉ detail)
    (before after : List (List Char)) (hb : ∀ l ∈ before, '\n' ∉ l)
    (hw : decode (TimestampWriter.writeBanner ⟨[], []⟩ now later event detail).written =
      some banner) :
    ¬ ReadsBanner off label seq (bannerMiddle now event detail) (unlines before) banner
      (unlines after) := by
  have hm := newline_notMem_bannerMiddle now he hd
  have hts : ' ' ∈ tsPrefix later := by simp [tsPrefix]
  have hn := newline_notMem_tsPrefix later
  rw [written_writeBanner he hd, decode_encode] at hw
  have hbanner := (Option.some.inj hw).symm
  have hlines : ∀ l ∈ [tsPrefix later ++ bannerRule,
      tsPrefix later ++ bannerMiddle now event detail, tsPrefix later ++ bannerRule],
      '\n' ∉ l := by
    simp [hn, hm, newline_notMem_bannerRule]
  rintro ⟨es₁, n₁, es, n, e, rest, ts, h₁, h₂, hes, -, ht, hbody⟩
  rw [readEntries_unlines hb] at h₁
  rw [readEntries, List.append_assoc, splitOn_unlines_append hb, hbanner,
    splitOn_unlines_append hlines, List.cons_append,
    readFrom_append (inert_stamped_rule hts) (Nat.zero_le _), h₁] at h₂
  obtain ⟨hraw, hplain⟩ := not_banner_body hts hts hn hn hm h₂ hes ht
  have hsplit := splitOn_unlines_append hlines []
  rw [List.append_nil] at hsplit
  rw [hbanner, hsplit] at hbody
  rcases hbody with hbody | hbody
  · simp only [List.cons_append, List.take_succ_cons, List.take_zero, joinWith_three] at hbody
    exact hraw _ hbody
  · rw [joinWith_three] at hbody
    exact hplain _ hbody

/-- The banner of a stop at the last second of 2024, in a file of its own. -/
def stopBanner : List Char :=
  unlines [tsPrefix 1735689599 ++ bannerRule,
    tsPrefix 1735689599 ++ bannerMiddle 1735689599 "STOPPED".toList [],
    tsPrefix 1735689599 ++ bannerRule]

theorem decode_stopBanner :
    decode (TimestampWriter.writeBanner ⟨[], []⟩ 1735689599 1735689599 "STOPPED".toList
      []).written = some stopBanner := by
  rw [written_writeBanner (by decide) (by decide), decode_encode, stopBanner]

theorem stopBanner_not_read_back :
    decode (TimestampWriter.writeBanner ⟨[], []⟩ 1735689599 1735689599 "STOPPED".toList
        []).written = some stopBanner ∧
      ¬ ReadsBanner (fun _ => 0) "api" 0 (bannerMiddle 1735689599 "STOPPED".toList []) (unlines [])
        stopBanner (unlines []) :=
  ⟨decode_stopBanner, banner_not_read_back (fun _ => 0) "api" 0 1735689599 1735689599
    "STOPPED".toList [] stopBanner (by decide) (by decide) [] [] (by simp) decode_stopBanner⟩

/-- It is read as three entries, one a line. -/
theorem stopBanner_three_entries :
    decode (TimestampWriter.writeBanner ⟨[], []⟩ 1735689599 1735689599 "STOPPED".toList
        []).written = some stopBanner ∧
      readEntries (fun _ => 0) "api" stopBanner 0 = .ok
        ([⟨some 1735689599, "api", bannerRule, 0, true⟩,
          ⟨some 1735689599, "api", bannerMiddle 1735689599 "STOPPED".toList [], 1, true⟩,
          ⟨some 1735689599, "api", bannerRule, 2, true⟩], 3) :=
  ⟨decode_stopBanner, by decide +kernel⟩

end Unitpm.Logs
