import Unitpm.Lib.Run
import Unitpm.Lib.TailReader
import Unitpm.LogEntry

/-! # Following a log file

`tail_follow` of `cli::commands::logs::follow`: a reader starts at the end of the file, and each
line that `read_line` returns goes through a state machine with the entry that is still open
(`pending`) and the lines of a banner that is not complete (`banner_buf`).  At the end of the file
the open entry is sent.

The state machine is meant to group lines as `read_entries` does.  `followed_entries` says when it
does: in every run whose polls find whole lines, at a place where the two agree (`lineOk`). -/

namespace Unitpm.Logs

open Rust.Str Utf8 TailReader

/-! ### The follower -/

/-- What `tail_follow` keeps from line to line, and the entries it has sent. -/
structure Tail where
  seq : ℕ
  pending : Option Entry := none
  bannerBuf : List (List Char) := []
  sent : List Entry := []

/-- `flush_banner_as_continuation`. -/
def Tail.flushBanner (t : Tail) : Tail :=
  if t.bannerBuf = [] then t
  else
    { t with
      pending := t.pending.map (Entry.fold (joinWith '\n' t.bannerBuf))
      bannerBuf := [] }

def Tail.send (t : Tail) (e : Option Entry) : Tail := { t with sent := t.sent ++ e.toList }

/-- What has been sent, and what is pending. -/
def Tail.entries (t : Tail) : List Entry := t.sent ++ t.pending.toList

section Lines

variable (localtimeOffset : ℤ → ℤ) (label : String)

/-- `parse_ts`. -/
def parseTs (line : List Char) : Except Panic (Option ℤ) :=
  (parseLine localtimeOffset line).map (Option.map Prod.fst)

/-- The text of a line behind its timestamp. -/
def lineBody (line : List Char) : Except Panic (List Char) :=
  if tsLen < byteLen line then
    match splitAtByte tsLen line with
    | none => .error .charBoundary
    | some (_, body) => .ok (trimStart body)
  else .ok []

/-- `handle_line`, with the entry that it displaces. -/
def handleLine (line : List Char) (t : Tail) : Except Panic (Option Entry × Tail) :=
  if isBannerRule line then .ok (none, { t with bannerBuf := t.bannerBuf ++ [line] })
  else
    match parseTs localtimeOffset line with
    | .error p => .error p
    | .ok (some ts) =>
        match lineBody line with
        | .error p => .error p
        | .ok body =>
            .ok (t.pending,
              { t with pending := some ⟨some ts, label, body, t.seq, true⟩, seq := t.seq + 1 })
    | .ok none => .ok (none, { t with pending := t.pending.map (Entry.fold line) })

/-- `handle_line`, and what it returns is sent. -/
def sendHandled (line : List Char) (t : Tail) : Except Panic Tail :=
  (handleLine localtimeOffset label line t).map fun r => r.2.send r.1

/-- The body of the loop, from the line on. -/
def takeText (line : List Char) (t : Tail) : Except Panic Tail :=
  match t.bannerBuf with
  | [_] =>
      match parseBannerMiddle localtimeOffset line with
      | .error p => .error p
      | .ok (some _) => .ok { t with bannerBuf := t.bannerBuf ++ [line] }
      | .ok none => sendHandled localtimeOffset label line t.flushBanner
  | [rule, mid] =>
      if isBannerRule line then
        match parseBannerMiddle localtimeOffset mid with
        | .error p => .error p
        | .ok (some ts) =>
            let banner : Entry := ⟨some ts, label, joinWith '\n' [rule, mid, line], t.seq, true⟩
            .ok { seq := t.seq + 1, sent := t.sent ++ t.pending.toList ++ [banner] }
        | .ok none => .ok { t with bannerBuf := [] }
      else sendHandled localtimeOffset label line t.flushBanner
  | _ => sendHandled localtimeOffset label line t

/-- What makes a follower return: an error, which is the last message on the channel, or a panic. -/
inductive Stop where
  | read (msg : String)
  | panicked
deriving DecidableEq

structure Follower where
  reader : Reader UInt8 lineFeed
  tail : Tail
  stopped : Option Stop := none

def stripCr (line : List Char) : List Char :=
  if line.getLast? = some '\r' then line.dropLast else line

/-- The line feed and one carriage return at the end of a line are cut off. -/
def stripEol (line : List Char) : List Char :=
  stripCr (if line.getLast? = some '\n' then line.dropLast else line)

/-- A line that `read_line` has found. -/
def Follower.takeBytes (f : Follower) (bytes : List UInt8) : Follower :=
  match decode bytes with
  | none =>
      { f with stopped := some (.read (label ++ " read: stream did not contain valid UTF-8")) }
  | some line =>
      match takeText localtimeOffset label (stripEol line) f.tail with
      | .error _ => { f with stopped := some .panicked }
      | .ok t => { f with tail := t }

/-- The size of the buffer of a `BufReader`. -/
def bufSize : ℕ := 8 * 1024

theorem bufSize_pos : 0 < bufSize := by decide

/-- What the reader has found. -/
def Follower.resume (f : Follower) : Reader UInt8 lineFeed × Outcome UInt8 → Follower
  | (r, .more) => { f with reader := r }
  | (r, .line bytes) => ({ f with reader := r }).takeBytes localtimeOffset label bytes
  | (r, .eof) =>
      { f with reader := r, tail := { f.tail.send f.tail.pending with pending := none } }

/-- `tail_follow` up to the next look at the file. -/
def Follower.poll (file : List UInt8) (f : Follower) : Follower :=
  if f.stopped.isSome then f
  else f.resume localtimeOffset label (f.reader.poll bufSize file)

end Lines

/-- `tail_follow` opens the file and seeks to its end. -/
def Follower.start (file : List UInt8) (seqBase : ℕ) : Follower where
  reader := Reader.start lineFeed file.length
  tail := { seq := seqBase }

/-! ### Lines on which the two readers agree -/

section Agreement

variable (off : ℤ → ℤ)

/-- A line outside a banner is grouped as `read_entries` groups it: it is a rule, it has a
timestamp, or it continues the entry that is open.  An empty line must find no open entry. -/
def plainOk (pending : Option Entry) (line : List Char) : Bool :=
  isBannerRule line ||
    match parseLine off line with
    | .error _ => false
    | .ok (some _) => true
    | .ok none => if line = [] then pending.isNone else pending.isSome

/-- A line that comes after the lines of `banner_buf` is grouped as `read_entries` groups it: it
goes on with the banner, or there is an open entry that the lines of the banner continue. -/
def lineOk (t : Tail) (line : List Char) : Bool :=
  match t.bannerBuf with
  | [_] =>
      match parseBannerMiddle off line with
      | .error _ => false
      | .ok (some _) => true
      | .ok none => t.pending.isSome && plainOk off t.pending line
  | [_, mid] =>
      isBannerRule line ||
        (t.pending.isSome && parseLine off mid = .ok none && plainOk off t.pending line)
  | _ => plainOk off t.pending line

/-- What `banner_buf` can hold: the lines of a banner so far. -/
inductive BannerBuf : List (List Char) → Prop
  | nil : BannerBuf []
  | rule {r : List Char} (hr : isBannerRule r = true) : BannerBuf [r]
  | middle {r m : List Char} {ts : ℤ} (hr : isBannerRule r = true)
      (hm : parseBannerMiddle off m = .ok (some ts)) : BannerBuf [r, m]

variable {off} {label : String} {seq : ℕ}

/-- A rule has no timestamp. -/
theorem parseLine_rule {r : List Char} (hr : isBannerRule r = true) :
    parseLine off r = .ok none := by
  have hall : ∀ c ∈ r, c = '=' := by
    unfold isBannerRule at hr
    split at hr
    · cases hr
    · intro c hc
      simpa using List.all_eq_true.mp hr c hc
  rw [parseLine]
  split
  · rfl
  · cases hs : splitAtByte tsLen r with
    | none => rfl
    | some p =>
        obtain ⟨a, b⟩ := p
        obtain ⟨rfl, hlen⟩ := append_of_splitAtByte hs
        have ha : ∀ c ∈ a, c = '=' := fun c hc => hall c (by simp [hc])
        have hsize : ∀ c ∈ a, c.utf8Size = 1 := fun c hc => by rw [ha c hc]; decide
        have hrep : a = List.replicate tsLen '=' :=
          List.eq_replicate_iff.mpr ⟨(byteLen_eq_length hsize).symm.trans hlen, ha⟩
        -- `====` is no year
        have hyear : parseLocalTimestamp off (List.replicate tsLen '=') = .ok none := rfl
        simp only [hrep, hyear, andThen]

theorem not_rule_of_middle {m : List Char} {ts : ℤ}
    (hm : parseBannerMiddle off m = .ok (some ts)) : m ≠ [] ∧ isBannerRule m = false := by
  have hb : ' ' ∈ m := by
    unfold parseBannerMiddle at hm
    split at hm
    · cases hm
    · rename_i h
      exact (not_not.mp h).subset (by decide)
  exact ⟨List.ne_nil_of_mem hb, isBannerRule_of_blank hb⟩

theorem readFrom_new {line body : List Char} {ts : ℤ} {rest : List (List Char)} {out : List Entry}
    (hr : isBannerRule line = false) (hp : parseLine off line = .ok (some (ts, body))) :
    readFrom off label 0 (line :: rest) out seq =
      readFrom off label 0 rest (out ++ [⟨some ts, label, body, seq, true⟩]) (seq + 1) := by
  have hne : line ≠ [] := by
    rintro rfl
    cases hp
  rw [readFrom, if_neg hne, bannerAt_of_not_rule hr]
  simp only [takeLine, hp]

theorem lineBody_of_parseLine {line body : List Char} {ts : ℤ}
    (h : parseLine off line = .ok (some (ts, body))) : lineBody line = .ok body := by
  unfold parseLine at h
  split at h
  · cases h
  · rename_i hlen
    rw [lineBody, if_pos (by omega)]
    cases hs : splitAtByte tsLen line with
    | none => simp [hs] at h
    | some p =>
        simp only [hs, andThen] at h
        split at h
        · cases h
        · cases h
        · exact congrArg Except.ok (Prod.mk.inj (Option.some.inj (Except.ok.inj h))).2

/-- The lines `ls`, read in the state `t` of the follower, leave it in the state `t'`, and
`read_entries` goes on with the same entries. -/
def Agrees (off : ℤ → ℤ) (label : String) (t : Tail) (ls : List (List Char)) (t' : Tail) : Prop :=
  BannerBuf off t'.bannerBuf ∧
    ∀ rest, readFrom off label 0 (ls ++ rest) t.entries t.seq =
      readFrom off label 0 (t'.bannerBuf ++ rest) t'.entries t'.seq

theorem sendHandled_rule {line : List Char} (hr : isBannerRule line = true) (t : Tail) :
    sendHandled off label line t = .ok { t with bannerBuf := t.bannerBuf ++ [line] } := by
  rw [sendHandled, handleLine, if_pos hr]
  simp [Except.map, Tail.send]

theorem sendHandled_timestamp {line body : List Char} {ts : ℤ} (hr : isBannerRule line = false)
    (hp : parseLine off line = .ok (some (ts, body))) (t : Tail) :
    sendHandled off label line t = .ok
      { t with
        seq := t.seq + 1
        pending := some ⟨some ts, label, body, t.seq, true⟩
        sent := t.sent ++ t.pending.toList } := by
  rw [sendHandled, handleLine, if_neg (by simp [hr]), parseTs, hp]
  simp [Except.map, lineBody_of_parseLine hp, Tail.send]

theorem sendHandled_plain {line : List Char} (hr : isBannerRule line = false)
    (hp : parseLine off line = .ok none) (t : Tail) :
    sendHandled off label line t =
      .ok { t with pending := t.pending.map (Entry.fold line) } := by
  rw [sendHandled, handleLine, if_neg (by simp [hr]), parseTs, hp]
  simp [Except.map, Tail.send]

theorem sendHandled_error {line : List Char} {p : Panic} (hr : isBannerRule line = false)
    (hp : parseLine off line = .error p) (t : Tail) :
    sendHandled off label line t = .error p := by
  rw [sendHandled, handleLine, if_neg (by simp [hr]), parseTs, hp]
  rfl

/-- A line outside a banner. -/
theorem sendHandled_agrees (label : String) {t : Tail} {line : List Char} (hb : t.bannerBuf = [])
    (hok : plainOk off t.pending line = true) :
    ∃ t', sendHandled off label line t = .ok t' ∧ Agrees off label t [line] t' := by
  obtain ⟨n, pending, buf, sent⟩ := t
  obtain rfl : buf = [] := hb
  cases hr : isBannerRule line with
  | true =>
      refine ⟨_, sendHandled_rule hr _, BannerBuf.rule hr, fun rest => ?_⟩
      rfl
  | false =>
      cases hp : parseLine off line with
      | error p => simp [plainOk, hr, hp] at hok
      | ok r =>
          cases r with
          | some p =>
              refine ⟨_, sendHandled_timestamp hr hp _, BannerBuf.nil, fun rest => ?_⟩
              exact readFrom_new hr hp
          | none =>
              refine ⟨_, sendHandled_plain hr hp _, BannerBuf.nil, fun rest => ?_⟩
              simp only [plainOk, hr, hp, Bool.false_or] at hok
              split at hok
              · -- an empty line, and no entry is open
                subst line
                obtain rfl : pending = none := by simpa using hok
                rw [List.singleton_append, readFrom, if_pos rfl]
                rfl
              · rename_i hne
                obtain ⟨e, rfl⟩ := Option.isSome_iff_exists.mp hok
                exact readFrom_fold hne (bannerAt_of_not_rule hr rest) hp

/-- The lines of a banner that is not completed go to the open entry. -/
theorem flushBanner_agrees {t : Tail} {line : List Char} {rest : List (List Char)} {e : Entry}
    (hb : BannerBuf off t.bannerBuf) (hp : t.pending = some e)
    (hrule : ∀ r, t.bannerBuf = [r] → parseBannerMiddle off line = .ok none)
    (hmid : ∀ r m, t.bannerBuf = [r, m] →
      parseLine off m = .ok none ∧ isBannerRule line = false) :
    readFrom off label 0 (t.bannerBuf ++ line :: rest) t.entries t.seq =
      readFrom off label 0 (line :: rest) t.flushBanner.entries t.seq := by
  obtain ⟨n, pending, buf, sent⟩ := t
  obtain rfl : pending = some e := hp
  cases hb with
  | nil => rfl
  | rule hr =>
      rename_i r
      have hb : bannerAt off label r (line :: rest) n = .ok none := by
        unfold bannerAt
        split
        · rename_i mid rule2 tail heq
          obtain ⟨rfl, -⟩ := List.cons.inj heq
          rw [if_pos hr, tryConsumeBanner, hrule r rfl]
          split <;> rfl
        · rfl
      have h := readFrom_fold (o := sent) (e := e) (ne_nil_of_isBannerRule hr) hb
        (parseLine_rule hr)
      simpa [Tail.entries, Tail.flushBanner, joinWith, Entry.fold] using h
  | middle hr hm =>
      rename_i r m ts
      obtain ⟨hpm, hl⟩ := hmid r m rfl
      obtain ⟨hne, hrm⟩ := not_rule_of_middle hm
      have hb : bannerAt off label r (m :: line :: rest) n = .ok none := by
        rw [bannerAt, if_pos hr, tryConsumeBanner, if_pos (Or.inr hl)]
      have h := readFrom_fold (o := sent) (e := e) (ne_nil_of_isBannerRule hr) hb
        (parseLine_rule hr)
      have h' : readFrom off label 0 (m :: line :: rest) (sent ++ [e.fold r]) n =
          readFrom off label 0 (line :: rest) (sent ++ [(e.fold r).fold m]) n :=
        readFrom_fold hne (bannerAt_of_not_rule hrm (line :: rest)) hpm
      simpa [Tail.entries, Tail.flushBanner, joinWith, Entry.fold] using h.trans h'

theorem flushBanner_bannerBuf (t : Tail) : t.flushBanner.bannerBuf = [] := by
  rw [Tail.flushBanner]
  split
  · assumption
  · rfl

theorem flushBanner_seq (t : Tail) : t.flushBanner.seq = t.seq := by
  rw [Tail.flushBanner]
  split <;> rfl

theorem flushBanner_pending_isSome (t : Tail) :
    t.flushBanner.pending.isSome = t.pending.isSome := by
  rw [Tail.flushBanner]
  split
  · rfl
  · simp

theorem plainOk_congr {p q : Option Entry} (h : p.isSome = q.isSome) (line : List Char) :
    plainOk off p line = plainOk off q line := by
  have h' : p.isNone = q.isNone := by rw [← Option.not_isSome, ← Option.not_isSome, h]
  simp only [plainOk, h, h']

theorem sendHandled_flushBanner_agrees (label : String) {t : Tail} (line : List Char)
    (hb : BannerBuf off t.bannerBuf) (hp : t.pending.isSome = true)
    (hrule : ∀ r, t.bannerBuf = [r] → parseBannerMiddle off line = .ok none)
    (hmid : ∀ r m, t.bannerBuf = [r, m] →
      parseLine off m = .ok none ∧ isBannerRule line = false)
    (hok : plainOk off t.pending line = true) :
    ∃ t', sendHandled off label line t.flushBanner = .ok t' ∧
      Agrees off label t (t.bannerBuf ++ [line]) t' := by
  obtain ⟨e, he⟩ := Option.isSome_iff_exists.mp hp
  rw [← plainOk_congr (flushBanner_pending_isSome t)] at hok
  obtain ⟨t', hs, hb', hread⟩ :=
    sendHandled_agrees label (flushBanner_bannerBuf t) hok
  refine ⟨t', hs, hb', fun rest => ?_⟩
  rw [List.append_assoc, List.singleton_append, flushBanner_agrees hb he hrule hmid,
    ← flushBanner_seq t]
  exact hread rest

/-- **One line.**  Where `lineOk` holds the follower takes the line as `read_entries` takes it. -/
theorem takeText_agrees (label : String) {t : Tail} {line : List Char}
    (hb : BannerBuf off t.bannerBuf) (hok : lineOk off t line = true) :
    ∃ t', takeText off label line t = .ok t' ∧ Agrees off label t (t.bannerBuf ++ [line]) t' := by
  have hflush := sendHandled_flushBanner_agrees label line hb
  generalize hbuf : t.bannerBuf = buf at hb
  rw [takeText, hbuf]
  rw [lineOk, hbuf] at hok
  rw [hbuf] at hflush
  cases hb with
  | nil => exact sendHandled_agrees label hbuf hok
  | rule hr =>
      rename_i r
      cases hm : parseBannerMiddle off line with
      | error p => simp [hm] at hok
      | ok mid =>
          cases mid with
          | some ts =>
              refine ⟨_, rfl, BannerBuf.middle hr hm, fun rest => ?_⟩
              rfl
          | none =>
              simp only [hm, Bool.and_eq_true] at hok
              exact hflush hok.1 (fun _ _ => hm) (fun r m h => by cases h) hok.2
  | middle hr hm =>
      rename_i r m ts
      cases hl : isBannerRule line with
      | true =>
          -- the banner is complete
          simp only [if_true, hm]
          refine ⟨_, rfl, BannerBuf.nil, fun rest => ?_⟩
          have ht : tryConsumeBanner off label r m line t.seq =
              .ok (some ⟨some ts, label, joinWith '\n' [r, m, line], t.seq, true⟩) := by
            rw [tryConsumeBanner, if_neg (by simp [hr, hl]), hm, joinWith_three]
            rfl
          simp only [List.cons_append, List.nil_append]
          rw [readFrom, if_neg (ne_nil_of_isBannerRule hr), bannerAt, if_pos hr, ht]
          simp only [readFrom, Tail.entries, Option.toList_none, List.append_nil]
      | false =>
          simp only [hl, Bool.false_or, Bool.and_eq_true, decide_eq_true_eq] at hok
          obtain ⟨⟨hp, hpm⟩, hok⟩ := hok
          refine hflush hp (fun r h => by cases h) (fun r' m' h => ?_) hok
          obtain ⟨-, h⟩ := List.cons.inj h
          obtain ⟨rfl, -⟩ := List.cons.inj h
          exact ⟨hpm, hl⟩

theorem Agrees.trans {t t' t'' : Tail} {ls ms : List (List Char)} (h : Agrees off label t ls t')
    (h' : Agrees off label t' (t'.bannerBuf ++ ms) t'') : Agrees off label t (ls ++ ms) t'' := by
  refine ⟨h'.1, fun rest => ?_⟩
  rw [List.append_assoc, h.2, ← List.append_assoc, h'.2]

end Agreement

/-! ### Runs -/

/-- A log file and the follower that reads it. -/
structure Followed where
  file : List UInt8
  follower : Follower

/-- Something is appended to the file, or the follower looks at it. -/
inductive Event where
  | append (chunk : List UInt8)
  | poll

section Runs

variable (off : ℤ → ℤ) (label : String)

def Followed.start (file : List UInt8) (seqBase : ℕ) : Followed :=
  ⟨file, Follower.start file seqBase⟩

def Followed.step (w : Followed) : Event → Followed
  | .append chunk => { w with file := w.file ++ chunk }
  | .poll => { w with follower := w.follower.poll off label w.file }

/-- What is appended in a run. -/
def appended (events : List Event) : List UInt8 :=
  events.flatMap fun e => match e with
    | .append chunk => chunk
    | .poll => []

/-- What `read_line` returns is a whole line of text, without a carriage return at its end, on which
the two readers agree. -/
def bytesOk (t : Tail) (bytes : List UInt8) : Bool :=
  match decode bytes with
  | none => false
  | some text =>
      text.getLast? = some '\n' && text.dropLast.getLast? ≠ some '\r' &&
        lineOk off t (stripEol text)

/-- The next poll reaches the end of the file, between two lines. -/
def Followed.atEof (w : Followed) : Bool :=
  match w.follower.reader.poll bufSize w.file with
  | (_, .eof) => true
  | _ => false

/-- The polls that do no harm: a line is taken where the readers agree, and the end of the file is
not reached inside a banner. -/
def Followed.permits (w : Followed) : Event → Bool
  | .append _ => true
  | .poll =>
      match w.follower.reader.poll bufSize w.file with
      | (_, .more) => true
      | (_, .line bytes) => bytesOk off w.follower.tail bytes
      | (_, .eof) => w.follower.tail.bannerBuf = []

end Runs

section Invariant

variable {off : ℤ → ℤ} {label : String} {file₀ : List UInt8} {seqBase : ℕ} {w : Followed}

/-- The invariant of the permitted runs: the file has grown by lines on which the readers agree, and
by what the follower has not taken yet. -/
structure Followed.Inv (off : ℤ → ℤ) (label : String) (file₀ : List UInt8) (seqBase : ℕ)
    (w : Followed) : Prop where
  running : w.follower.stopped = none
  pos_le : w.follower.reader.pos ≤ w.file.length
  lines : ∃ ls, (∀ l ∈ ls, '\n' ∉ l) ∧
    w.file = file₀ ++ (encode (unlines ls) ++ w.follower.reader.unread w.file) ∧
    Agrees off label { seq := seqBase } ls w.follower.tail

theorem Followed.inv_start (off : ℤ → ℤ) (label : String) (file₀ : List UInt8) (seqBase : ℕ) :
    (Followed.start file₀ seqBase).Inv off label file₀ seqBase where
  running := rfl
  pos_le := le_refl _
  lines := by
    refine ⟨[], by simp, ?_, BannerBuf.nil, fun rest => rfl⟩
    simp only [Followed.start, Follower.start, Reader.unread_start]
    simp

/-- A line that `bytesOk` admits: its text, and the state after it. -/
theorem takeBytes_of_bytesOk (label : String) (f : Follower) {l : List UInt8} (hl : lineFeed ∉ l)
    (hb : BannerBuf off f.tail.bannerBuf) (hok : bytesOk off f.tail (l ++ [lineFeed]) = true) :
    ∃ line t, '\n' ∉ line ∧ encode line = l ∧
      f.takeBytes off label (l ++ [lineFeed]) = { f with tail := t } ∧
      Agrees off label f.tail (f.tail.bannerBuf ++ [line]) t := by
  cases hd : decode (l ++ [lineFeed]) with
  | none => simp [bytesOk, hd] at hok
  | some text =>
      simp only [bytesOk, hd, Bool.and_eq_true, decide_eq_true_eq] at hok
      obtain ⟨⟨hlast, hcr⟩, hok⟩ := hok
      obtain ⟨line, rfl⟩ := List.getLast?_eq_some_iff.mp hlast
      have henc : encode line = l := by
        have h := encode_of_decode hd
        rw [encode_append, encode_cons, encodeChar_newline] at h
        exact List.append_cancel_right h
      rw [List.dropLast_concat] at hcr
      have hstrip : stripEol (line ++ ['\n']) = line := by
        simp [stripEol, stripCr, hcr]
      rw [hstrip] at hok
      obtain ⟨t, ht, hagree⟩ := takeText_agrees label hb hok
      refine ⟨line, t, ?_, henc, ?_, hagree⟩
      · rw [← lineFeed_mem_encode, henc]
        exact hl
      · simp only [Follower.takeBytes, hd, hstrip, ht]

theorem Follower.poll_of_running {f : Follower} (h : f.stopped = none) (file : List UInt8) :
    f.poll off label file = f.resume off label (f.reader.poll bufSize file) := by
  rw [Follower.poll, h]
  rfl

/-- **One step** of a permitted run. -/
theorem Followed.Inv.step (h : w.Inv off label file₀ seqBase) {e : Event}
    (he : w.permits off e = true) : (w.step off label e).Inv off label file₀ seqBase := by
  obtain ⟨file, f⟩ := w
  obtain ⟨hrun, hpos, ls, hls, hfile, hagree⟩ := h
  simp only at hrun hpos hfile hagree
  cases e with
  | append chunk =>
      refine ⟨hrun, ?_, ls, hls, ?_, hagree⟩
      · simp only [Followed.step, List.length_append]
        omega
      · calc file ++ chunk
            = file₀ ++ (encode (unlines ls) ++ f.reader.unread file) ++ chunk :=
              congrArg (· ++ chunk) hfile
          _ = file₀ ++ (encode (unlines ls) ++ f.reader.unread (file ++ chunk)) := by
              rw [Reader.unread_append hpos]
              simp
  | poll =>
      have hp := Reader.polled bufSize_pos file f.reader
      simp only [Followed.permits] at he
      simp only [Followed.step, Follower.poll_of_running hrun]
      generalize f.reader.poll bufSize file = p at hp he
      cases hp with
      | more r' _ hle hu => exact ⟨hrun, hle hpos, ls, hls, by rwa [← hu] at hfile, hagree⟩
      | line r' l _ hle hl hu =>
          obtain ⟨line, t, hn, henc, htake, hagree'⟩ :=
            takeBytes_of_bytesOk label { f with reader := r' } hl hagree.1 he
          simp only [Follower.resume, htake]
          refine ⟨hrun, hle hpos, ls ++ [line], ?_, ?_, hagree.trans hagree'⟩
          · simpa [or_imp, forall_and, hn] using hls
          · calc file = file₀ ++ (encode (unlines ls) ++ f.reader.unread file) := hfile
              _ = file₀ ++ (encode (unlines (ls ++ [line])) ++ r'.unread file) := by
                  rw [hu, ← henc]
                  simp [unlines]
      | part r' _ hne hu hu' =>
          -- what is handed out at the end of the file is no whole line
          exfalso
          cases hd : decode f.reader.line with
          | none => simp [bytesOk, hd] at he
          | some text =>
              simp only [bytesOk, hd, Bool.and_eq_true, decide_eq_true_eq] at he
              have hmem : '\n' ∈ text := List.mem_of_getLast? he.1.1
              rw [← lineFeed_mem_encode, encode_of_decode hd] at hmem
              exact f.reader.open_line hmem
      | eof hu =>
          refine ⟨hrun, hpos, ls, hls, hfile, hagree.1, fun rest => ?_⟩
          rw [hagree.2]
          simp [Follower.resume, Tail.entries, Tail.send]

theorem Followed.file_foldl (events : List Event) (w : Followed) :
    (events.foldl (Followed.step off label) w).file = w.file ++ appended events := by
  induction events generalizing w with
  | nil => simp [appended]
  | cons e events ih =>
      rw [List.foldl_cons, ih]
      cases e <;> simp [Followed.step, appended]

/-- Where the end of the file is reached between two lines and outside a banner, the entries are
those of the lines. -/
theorem Followed.Inv.readEntries_eq (h : w.Inv off label file₀ seqBase)
    (hu : w.follower.reader.unread w.file = []) (hb : w.follower.tail.bannerBuf = []) :
    ∃ text, w.file = file₀ ++ encode text ∧
      readEntries off label text seqBase =
        .ok (w.follower.tail.entries, w.follower.tail.seq) := by
  obtain ⟨ls, hls, hfile, hagree⟩ := h.lines
  refine ⟨unlines ls, by simpa [hu] using hfile, ?_⟩
  have hread := hagree.2 []
  rw [List.append_nil, hb, List.append_nil, readFrom] at hread
  rw [readEntries_unlines hls]
  exact hread

/-- **Follow mode and batch mode.**  In a run whose polls are all permitted, a poll that reaches the
end of the file leaves sent or pending the entries that `read_entries` finds in the text that has
been appended. -/
theorem followed_entries (off : ℤ → ℤ) (label : String) (file₀ : List UInt8) (seqBase : ℕ)
    (events : List Event) (text : List Char) (w : Followed)
    (hw : w = events.foldl (Followed.step off label) (Followed.start file₀ seqBase))
    (hok : Run.Along (Followed.step off label) (fun w e => w.permits off e = true)
      (Followed.start file₀ seqBase) (events ++ [.poll]))
    (htext : appended events = encode text) (heof : w.atEof = true) :
    readEntries off label text seqBase =
      .ok ((w.step off label .poll).follower.tail.entries,
        (w.step off label .poll).follower.tail.seq) := by
  obtain ⟨hrun, hlast⟩ := (Run.along_append _ _ _).mp hok
  rw [← hw] at hlast
  have hinv : w.Inv off label file₀ seqBase := by
    rw [hw]
    exact hrun.invariant _ (fun w e h he => h.step he) (Followed.inv_start off label file₀ seqBase)
  have hfile : (w.step off label .poll).file = file₀ ++ encode text := by
    rw [← htext, hw]
    exact Followed.file_foldl events _
  -- the poll finds nothing to read, and leaves no banner behind
  have hend : (w.step off label .poll).follower.reader.unread w.file = [] ∧
      (w.step off label .poll).follower.tail.bannerBuf = [] := by
    have hp := Reader.polled bufSize_pos w.file w.follower.reader
    have he := hlast.1
    simp only [Followed.permits] at he
    simp only [Followed.step, Follower.poll_of_running hinv.running]
    rw [Followed.atEof] at heof
    generalize w.follower.reader.poll bufSize w.file = p at hp he heof
    cases hp with
    | more => cases heof
    | line => cases heof
    | part => cases heof
    | eof hu => exact ⟨hu, of_decide_eq_true he⟩
  obtain ⟨text', hfile', hread⟩ := (hinv.step hlast.1).readEntries_eq hend.1 hend.2
  obtain rfl : text = text' :=
    encode_injective (List.append_cancel_left (hfile.symm.trans hfile'))
  exact hread

end Invariant

/-- An entry of two lines, appended in two pieces before the follower looks. -/
def wholeLines : List Event :=
  [.append (encode "2024-12-31 23:59:59 ser".toList), .append (encode "ving\non 80\n".toList),
    .poll, .poll]

theorem followed_entries_wholeLines :
    Run.Along (Followed.step (fun _ => 0) "api") (fun w e => w.permits (fun _ => 0) e = true)
        (Followed.start [] 0) (wholeLines ++ [.poll]) ∧
      readEntries (fun _ => 0) "api" "2024-12-31 23:59:59 serving\non 80\n".toList 0 =
        .ok (((wholeLines.foldl (Followed.step (fun _ => 0) "api") (Followed.start [] 0)).step
            (fun _ => 0) "api" .poll).follower.tail.entries,
          ((wholeLines.foldl (Followed.step (fun _ => 0) "api") (Followed.start [] 0)).step
            (fun _ => 0) "api" .poll).follower.tail.seq) :=
  have h : Run.Along (Followed.step (fun _ => 0) "api") (fun w e => w.permits (fun _ => 0) e = true)
      (Followed.start [] 0) (wholeLines ++ [.poll]) := by decide +kernel
  ⟨h, followed_entries (fun _ => 0) "api" [] 0 wholeLines _ _ rfl h (by decide +kernel)
    (by decide +kernel)⟩

/-- A line appended in two pieces, and the follower looks in between. -/
def cutLine : List Event :=
  [.append (encode "2024-12-31 23:59:59 ser".toList), .poll, .poll,
    .append (encode "ving\n".toList), .poll]

/-- The line is cut in two. -/
theorem followed_cutLine :
    appended cutLine = encode "2024-12-31 23:59:59 serving\n".toList ∧
      (cutLine.foldl (Followed.step (fun _ => 0) "api") (Followed.start [] 0)).atEof = true ∧
      ((cutLine.foldl (Followed.step (fun _ => 0) "api") (Followed.start [] 0)).step
          (fun _ => 0) "api" .poll).follower.tail.entries =
        [⟨some 1735689599, "api", "ser\nving".toList, 0, true⟩] ∧
      readEntries (fun _ => 0) "api" "2024-12-31 23:59:59 serving\n".toList 0 =
        .ok ([⟨some 1735689599, "api", "serving".toList, 0, true⟩], 1) := by
  decide +kernel

end Unitpm.Logs
