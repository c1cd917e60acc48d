import Mathlib.Data.List.Forall2
import Unitpm.Follow
import Unitpm.Rotate

/-! # Following a file that is rotated

The daemon appends lines to the live file, `rotate_chain` copies the file and truncates it, and a
follower polls it, in any order; rotation is two steps, so that lines and polls may come between the
copy and the truncation.  The follower never moves its offset back.

`rotated_entries`: as long as a line is appended only while the offset is inside the file, the lines
since the last truncation are sent or pending at the end of the file, and no line is sent twice. -/

namespace Unitpm.Logs

open Rust.Str Utf8 TailReader

/-- A complete line that the daemon appends: the time of its timestamp, and the bytes of the
process. -/
structure LogLine where
  time : ℕ
  body : List UInt8
  complete : lineFeed ∉ body
deriving DecidableEq

namespace LogLine

/-- The line without the line feed. -/
def bytes (l : LogLine) : List UInt8 := encode (tsPrefix l.time) ++ l.body

/-- The line is text, and its timestamp has a year of four digits. -/
def readable (l : LogLine) : Bool := l.time < 253402300800 && (decode l.body).isSome

end LogLine

/-- The bytes of lines in a file. -/
def fileBytes (ls : List LogLine) : List UInt8 := ls.flatMap fun l => l.bytes ++ [lineFeed]

/-- A log that is written, rotated and followed.  `lines` and `since` record what the daemon has
appended, ever and since the last truncation. -/
structure RotatedLog where
  dir : LogDir
  archived : Bool := false
  follower : Follower
  lines : List LogLine := []
  since : List LogLine := []

inductive LogEvent where
  | append (line : LogLine)
  | archive (env : RotateEnv) (cfg : RotateConfig)
  | truncate (env : RotateEnv)
  | poll

section Steps

variable (off : ℤ → ℤ) (label path : String)

/-- The contents of the live file. -/
def RotatedLog.live (w : RotatedLog) : List UInt8 := (w.dir.files path).getD []

def RotatedLog.start (dir : LogDir) (seqBase : ℕ) : RotatedLog where
  dir := dir
  follower := Follower.start ((dir.files path).getD []) seqBase

def RotatedLog.step (w : RotatedLog) : LogEvent → RotatedLog
  | .append line =>
      { w with
        dir := w.dir.set path (some (w.live path ++ (line.bytes ++ [lineFeed])))
        lines := w.lines ++ [line]
        since := w.since ++ [line] }
  | .archive env cfg =>
      let r := LogDir.archive env cfg path w.dir
      { w with dir := r.1, archived := r.2 }
  | .truncate env =>
      if w.archived = false then w
      else
        { w with
          dir := LogDir.truncate env path w.dir
          archived := false
          since := if (env.fault .truncate).isNone then [] else w.since }
  | .poll => { w with follower := w.follower.poll off label (w.live path) }

/-- A line may be appended if the follower has not read beyond the end of the file, and if it can be
read back. -/
def RotatedLog.permits (w : RotatedLog) : LogEvent → Bool
  | .append line => w.follower.reader.pos ≤ (w.live path).length && line.readable
  | _ => true

/-- The next poll reaches the end of the file. -/
def RotatedLog.atEof (w : RotatedLog) : Bool :=
  match w.follower.reader.poll bufSize (w.live path) with
  | (_, .eof) => true
  | _ => false

end Steps

/-! ### Lines and entries -/

section Entries

variable {off : ℤ → ℤ} {label : String} {t : ℕ}

/-- The instant at which a clock of the reader's zone shows what the writer's clock showed. -/
def shownAt (off : ℤ → ℤ) (t : ℕ) : ℤ := t - off (t - off t)

/-- The entry of a line. -/
def Carries (off : ℤ → ℤ) (label : String) (e : Entry) (l : LogLine) : Prop :=
  ∃ text, decode l.body = some text ∧
    e = ⟨some (shownAt off l.time), label, trimStart (stripCr text), e.seq, true⟩

/-- An entry that a line has started, or the first part of it; other text may be folded in. -/
def EntryOf (off : ℤ → ℤ) (e : Entry) (l : LogLine) : Prop :=
  ∃ text p s, decode l.body = some text ∧ p <+: text ∧ e.tsUnix = some (shownAt off l.time) ∧
    e.body = trimStart p ++ s ∧ (s = [] ∨ s.head? = some '\n')

theorem prefix_stripCr (line : List Char) : stripCr line <+: line := by
  rw [stripCr]
  split
  · exact List.dropLast_prefix line
  · exact List.prefix_refl line

theorem prefix_stripEol (line : List Char) : stripEol line <+: line := by
  rw [stripEol]
  split
  · exact (prefix_stripCr _).trans (List.dropLast_prefix line)
  · exact prefix_stripCr line

theorem Carries.entryOf {e : Entry} {l : LogLine} (h : Carries off label e l) :
    EntryOf off e l := by
  obtain ⟨text, hd, he⟩ := h
  refine ⟨text, stripCr text, [], hd, prefix_stripCr text, ?_, ?_, Or.inl rfl⟩
  · rw [he]
  · rw [he, List.append_nil]

theorem EntryOf.fold {e : Entry} {l : LogLine} (h : EntryOf off e l) (line : List Char) :
    EntryOf off (e.fold line) l := by
  obtain ⟨text, p, s, hd, hp, ht, hb, hs⟩ := h
  refine ⟨text, p, s ++ '\n' :: line, hd, hp, ht, by simp [Entry.fold, hb], Or.inr ?_⟩
  rcases hs with rfl | hs
  · rfl
  · rw [List.head?_append, hs]
    rfl

theorem blank_mem_tsPrefix (t : ℕ) : ' ' ∈ tsPrefix t := by simp [tsPrefix]

theorem byteLen_tsPrefix (ht : t < 253402300800) : byteLen (tsPrefix t) = tsLen + 1 := by
  obtain ⟨hv, -⟩ := fieldsAt_spec ht
  rw [tsPrefix, formatNow_eq, byteLen_append, Fields.byteLen_text hv]
  rfl

/-- A beginning of a line that has a timestamp has that of the line. -/
theorem parseLine_of_beginning {line text body : List Char} {ts : ℤ} (ht : t < 253402300800)
    (h : line <+: tsPrefix t ++ text) (hp : parseLine off line = .ok (some (ts, body))) :
    ts = shownAt off t ∧ ∃ p, p <+: text ∧ body = trimStart p := by
  have hlen : tsLen + 1 ≤ byteLen line := by
    unfold parseLine at hp
    split at hp
    · cases hp
    · omega
  have hline : ∃ p, line = tsPrefix t ++ p := by
    rcases List.prefix_or_prefix_of_prefix (List.prefix_append (tsPrefix t) text) h with h | h
    · obtain ⟨p, rfl⟩ := h
      exact ⟨p, rfl⟩
    · obtain ⟨z, hz⟩ := h
      cases z with
      | nil => exact ⟨[], by simpa using hz⟩
      | cons c z =>
          have hb := congrArg byteLen hz
          rw [byteLen_append, byteLen_cons, byteLen_tsPrefix ht] at hb
          have := c.utf8Size_pos
          omega
  obtain ⟨p, rfl⟩ := hline
  rw [parseLine_tsPrefix ht] at hp
  obtain ⟨rfl, rfl⟩ := Prod.mk.inj (Option.some.inj (Except.ok.inj hp))
  exact ⟨rfl, p, (List.prefix_append_right_inj _).mp h, rfl⟩

theorem stripEol_line (t : ℕ) (text : List Char) :
    stripEol (tsPrefix t ++ text ++ ['\n']) = tsPrefix t ++ stripCr text := by
  rw [stripEol, List.getLast?_concat, if_pos rfl, List.dropLast_concat]
  rcases List.eq_nil_or_concat text with rfl | ⟨l, c, rfl⟩
  · simp [stripCr, tsPrefix]
  · rw [List.concat_eq_append, ← List.append_assoc]
    simp only [stripCr, List.getLast?_concat, List.dropLast_concat]
    split <;> simp

theorem takeText_of_nil {line : List Char} {s : Tail} (hb : s.bannerBuf = []) :
    takeText off label line s = sendHandled off label line s := by
  rw [takeText, hb]

/-- A line that the follower reads as a whole is an entry. -/
theorem takeBytes_line (off : ℤ → ℤ) (label : String) (f : Follower) {l : LogLine}
    (hl : l.readable = true) (hb : f.tail.bannerBuf = []) :
    ∃ e, Carries off label e l ∧
      f.takeBytes off label (l.bytes ++ [lineFeed]) =
        { f with
          tail := { f.tail with
            seq := f.tail.seq + 1
            pending := some e
            sent := f.tail.sent ++ f.tail.pending.toList } } := by
  simp only [LogLine.readable, Bool.and_eq_true, decide_eq_true_eq] at hl
  obtain ⟨ht, hd⟩ := hl
  obtain ⟨text, hd⟩ := Option.isSome_iff_exists.mp hd
  have hbytes : l.bytes ++ [lineFeed] = encode (tsPrefix l.time ++ text ++ ['\n']) := by
    rw [LogLine.bytes, ← encode_of_decode hd]
    simp
  have hp := parseLine_tsPrefix ht off (stripCr text)
  have hr : isBannerRule (tsPrefix l.time ++ stripCr text) = false :=
    isBannerRule_of_blank (by simp [blank_mem_tsPrefix])
  refine ⟨⟨some (shownAt off l.time), label, trimStart (stripCr text), f.tail.seq, true⟩,
    ⟨text, hd, rfl⟩, ?_⟩
  rw [Follower.takeBytes, hbytes, decode_encode]
  simp only [stripEol_line, takeText_of_nil hb, sendHandled_timestamp hr hp]
  rfl

theorem forall₂_replace_last {R : Entry → LogLine → Prop} {es : List Entry} {e e' : Entry}
    {ls : List LogLine} (h : List.Forall₂ R (es ++ [e]) ls) (he : ∀ l, R e l → R e' l) :
    List.Forall₂ R (es ++ [e']) ls := by
  induction es generalizing ls with
  | nil =>
      cases h with
      | cons hl ht => exact List.Forall₂.cons (he _ hl) ht
  | cons a es ih =>
      cases h with
      | cons hl ht => exact List.Forall₂.cons hl (ih ht)

/-- The first part of a line, cut off by a truncation, is an entry at most. -/
theorem takeBytes_part (label : String) (f : Follower) {l : LogLine} {b : List UInt8}
    {done : List LogLine} (hl : l.readable = true) (hb : f.tail.bannerBuf = [])
    (hpre : b <+: l.bytes) (hdone : List.Forall₂ (EntryOf off) f.tail.entries done) :
    (f.takeBytes off label b).reader = f.reader ∧
      ∃ done', done'.Sublist (done ++ [l]) ∧
        List.Forall₂ (EntryOf off) (f.takeBytes off label b).tail.entries done' := by
  simp only [LogLine.readable, Bool.and_eq_true, decide_eq_true_eq] at hl
  obtain ⟨ht, hd⟩ := hl
  obtain ⟨text, hd⟩ := Option.isSome_iff_exists.mp hd
  have hsub : done.Sublist (done ++ [l]) := List.sublist_append_left done [l]
  rw [Follower.takeBytes]
  cases hdb : decode b with
  | none => exact ⟨rfl, done, hsub, hdone⟩
  | some part =>
      have hpart : stripEol part <+: tsPrefix l.time ++ text := by
        refine (prefix_stripEol part).trans (prefix_of_encode ?_)
        rw [encode_of_decode hdb, encode_append, encode_of_decode hd]
        exact hpre
      simp only [takeText_of_nil hb]
      cases hr : isBannerRule (stripEol part) with
      | true =>
          rw [sendHandled_rule hr]
          exact ⟨rfl, done, hsub, hdone⟩
      | false =>
          cases hp : parseLine off (stripEol part) with
          | error p =>
              rw [sendHandled_error hr hp]
              exact ⟨rfl, done, hsub, hdone⟩
          | ok r =>
              cases r with
              | some r =>
                  obtain ⟨ts, body⟩ := r
                  obtain ⟨rfl, p, hpt, rfl⟩ := parseLine_of_beginning ht hpart hp
                  rw [sendHandled_timestamp hr hp]
                  refine ⟨rfl, done ++ [l], List.Sublist.refl _, ?_⟩
                  exact List.rel_append hdone (List.Forall₂.cons
                    ⟨text, p, [], hd, hpt, rfl, by simp, Or.inl rfl⟩ List.Forall₂.nil)
              | none =>
                  rw [sendHandled_plain hr hp]
                  refine ⟨rfl, done, hsub, ?_⟩
                  cases hpend : f.tail.pending with
                  | none => simpa [Tail.entries, hpend] using hdone
                  | some e =>
                      rw [Tail.entries, hpend] at hdone
                      exact forall₂_replace_last hdone fun l h => h.fold _

theorem lineFeed_notMem_bytes (l : LogLine) : lineFeed ∉ l.bytes := by
  rw [LogLine.bytes, List.mem_append, not_or, lineFeed_mem_encode]
  exact ⟨newline_notMem_tsPrefix l.time, l.complete⟩

theorem fileBytes_cons (l : LogLine) (ls : List LogLine) :
    fileBytes (l :: ls) = l.bytes ++ lineFeed :: fileBytes ls := by
  simp [fileBytes]

theorem first_line {b u : List UInt8} {ls : List LogLine} (hb : lineFeed ∉ b)
    (h : b ++ lineFeed :: u = fileBytes ls) :
    ∃ l rest, ls = l :: rest ∧ b = l.bytes ∧ u = fileBytes rest := by
  cases ls with
  | nil => simp [fileBytes] at h
  | cons l rest =>
      rw [fileBytes_cons] at h
      have hcut := congrArg (Frames.cut lineFeed) h
      rw [Frames.cut_append_sep hb, Frames.cut_append_sep (lineFeed_notMem_bytes l)] at hcut
      obtain ⟨h1, h2⟩ := Prod.mk.inj hcut
      exact ⟨l, rest, rfl, List.append_cancel_right h1, h2⟩

theorem first_part {b z : List UInt8} {ls : List LogLine} (hb : lineFeed ∉ b) (hne : b ≠ [])
    (h : b ++ z = fileBytes ls) : ∃ l rest, ls = l :: rest ∧ b <+: l.bytes := by
  cases ls with
  | nil => exact absurd (List.append_eq_nil_iff.mp h).1 hne
  | cons l rest =>
      refine ⟨l, rest, rfl, ?_⟩
      have h' : fileBytes (l :: rest) = (l.bytes ++ [lineFeed]) ++ fileBytes rest := by
        simp [fileBytes]
      rcases List.prefix_or_prefix_of_prefix ⟨z, h.trans h'⟩ (List.prefix_append _ _) with hp | hp
      · rcases List.prefix_concat_iff.mp hp with rfl | hp
        · simp at hb
        · exact hp
      · exact absurd (hp.subset (by simp)) hb

end Entries

/-! ### Runs -/

section Runs

variable {off : ℤ → ℤ} {label path : String} {w : RotatedLog}

/-- The invariant of the permitted runs.  Until a truncation takes away what the follower has read,
all that it has read are entries, and the rest is in the file (`live`); from then on the offset is
beyond the end of the file, which stays empty (`stale`). -/
inductive RotatedLog.Inv (off : ℤ → ℤ) (label path : String) (w : RotatedLog) : Prop
  | live (file : List UInt8) (done rest : List LogLine) (hfile : w.dir.files path = some file)
      (hrun : w.follower.stopped = none) (hpos : w.follower.reader.pos ≤ file.length)
      (hb : w.follower.tail.bannerBuf = [])
      (hdone : List.Forall₂ (Carries off label) w.follower.tail.entries done)
      (hunread : w.follower.reader.unread file = fileBytes rest)
      (hread : ∀ l ∈ rest, l.readable = true) (hsub : (done ++ rest).Sublist w.lines)
      (hsince : w.since <:+ done ++ rest)
  | stale (done rest : List LogLine) (hfile : w.dir.files path = some [])
      (hpos : 0 < w.follower.reader.pos)
      (hb : w.follower.tail.bannerBuf = [] ∨ w.follower.reader.unread [] = [])
      (hdone : List.Forall₂ (EntryOf off) w.follower.tail.entries done)
      (hunread : w.follower.reader.unread [] <+: fileBytes rest)
      (hread : ∀ l ∈ rest, l.readable = true) (hsub : (done ++ rest).Sublist w.lines)
      (hsince : w.since = [])

theorem RotatedLog.inv_start {dir : LogDir} (hdir : (dir.files path).isSome = true) (seqBase : ℕ) :
    (RotatedLog.start path dir seqBase).Inv off label path := by
  obtain ⟨file, hfile⟩ := Option.isSome_iff_exists.mp hdir
  refine .live file [] [] hfile rfl ?_ rfl List.Forall₂.nil ?_ (by simp) (by simp) ?_
  · simp [RotatedLog.start, Follower.start, Reader.start, hfile]
  · simp only [RotatedLog.start, Follower.start, hfile, Option.getD_some, Reader.unread_start]
    rfl
  · exact List.suffix_refl []

theorem RotatedLog.Inv.append (h : w.Inv off label path) {l : LogLine}
    (hl : w.permits path (.append l) = true) :
    (w.step off label path (.append l)).Inv off label path := by
  simp only [RotatedLog.permits, Bool.and_eq_true, decide_eq_true_eq] at hl
  cases h with
  | live file done rest hfile hrun hpos hb hdone hunread hread hsub hsince =>
      have hlive : w.live path = file := by simp [RotatedLog.live, hfile]
      refine .live (file ++ (l.bytes ++ [lineFeed])) done (rest ++ [l]) ?_ hrun ?_ hb hdone ?_ ?_
        ?_ ?_
      · simp [RotatedLog.step, hlive]
      · simp only [RotatedLog.step, List.length_append]
        omega
      · simp only [RotatedLog.step]
        rw [Reader.unread_append hpos, hunread]
        simp [fileBytes]
      · simpa [or_imp, forall_and, hl.2] using hread
      · rw [← List.append_assoc]
        exact hsub.append (List.Sublist.refl [l])
      · rw [← List.append_assoc]
        obtain ⟨x, hx⟩ := hsince
        exact ⟨x, by simp [RotatedLog.step, ← hx]⟩
  | stale done rest hfile hpos hb hdone hunread hread hsub hsince =>
      -- the offset is beyond the end of the empty file
      simp [RotatedLog.live, hfile] at hl
      omega

theorem RotatedLog.Inv.archive (h : w.Inv off label path) (env : RotateEnv) (cfg : RotateConfig) :
    (w.step off label path (.archive env cfg)).Inv off label path := by
  have hlive := LogDir.archive_live env cfg path w.dir
  cases h with
  | live file done rest hfile hrun hpos hb hdone hunread hread hsub hsince =>
      exact .live file done rest (hlive.trans hfile) hrun hpos hb hdone hunread hread hsub hsince
  | stale done rest hfile hpos hb hdone hunread hread hsub hsince =>
      exact .stale done rest (hlive.trans hfile) hpos hb hdone hunread hread hsub hsince

theorem RotatedLog.Inv.truncate (h : w.Inv off label path) (env : RotateEnv) :
    (w.step off label path (.truncate env)).Inv off label path := by
  simp only [RotatedLog.step]
  split
  · exact h
  · cases h with
    | live file done rest hfile hrun hpos hb hdone hunread hread hsub hsince =>
        have hdir := LogDir.truncate_live env hfile
        cases hf : (env.fault .truncate).isNone with
        | false =>
            rw [hf] at hdir
            exact .live file done rest hdir hrun hpos hb hdone hunread hread hsub hsince
        | true =>
            rw [hf] at hdir
            by_cases h0 : w.follower.reader.pos = 0
            · -- nothing has been read, and nothing is lost that belongs to the new file
              refine .live [] done [] hdir hrun (by simp [h0]) hb hdone ?_ (by simp) ?_ ?_
              · exact Reader.unread_of_pos_eq_zero h0 []
              · exact ((List.Sublist.refl done).append (List.nil_sublist rest)).trans hsub
              · exact List.nil_suffix
            · have hdone' : List.Forall₂ (EntryOf off) w.follower.tail.entries done :=
                hdone.imp fun e l h => h.entryOf
              refine .stale done rest hdir (Nat.pos_of_ne_zero h0) (Or.inl hb) hdone' ?_ hread hsub
                rfl
              rw [← hunread]
              exact Reader.unread_nil_prefix_unread file
    | stale done rest hfile hpos hb hdone hunread hread hsub hsince =>
        have hdir := LogDir.truncate_live env hfile
        rw [ite_self] at hdir
        refine .stale done rest hdir hpos hb hdone hunread hread hsub ?_
        simp [hsince]

/-- The follower polls while its offset is inside the file. -/
theorem RotatedLog.Inv.poll_live {file : List UInt8} {done rest : List LogLine}
    (hfile : w.dir.files path = some file) (hrun : w.follower.stopped = none)
    (hpos : w.follower.reader.pos ≤ file.length) (hb : w.follower.tail.bannerBuf = [])
    (hdone : List.Forall₂ (Carries off label) w.follower.tail.entries done)
    (hunread : w.follower.reader.unread file = fileBytes rest)
    (hread : ∀ l ∈ rest, l.readable = true) (hsub : (done ++ rest).Sublist w.lines)
    (hsince : w.since <:+ done ++ rest) :
    (w.step off label path .poll).Inv off label path := by
  have hlive : w.live path = file := by simp [RotatedLog.live, hfile]
  have hp := Reader.polled bufSize_pos file w.follower.reader
  simp only [RotatedLog.step, hlive, Follower.poll_of_running hrun]
  generalize w.follower.reader.poll bufSize file = p at hp
  cases hp with
  | more r' _ hle hu =>
      exact .live file done rest hfile hrun (hle hpos) hb hdone (hu.trans hunread) hread hsub hsince
  | line r' b _ hle hl hu =>
      obtain ⟨l, rest', rfl, rfl, hu'⟩ := first_line hl (hu.symm.trans hunread)
      obtain ⟨e, he, htake⟩ := takeBytes_line off label { w.follower with reader := r' }
        (hread l (by simp)) hb
      simp only [Follower.resume, htake]
      have hassoc : done ++ l :: rest' = (done ++ [l]) ++ rest' := by simp
      rw [hassoc] at hsub hsince
      refine .live file (done ++ [l]) rest' hfile hrun (hle hpos) hb ?_ hu'
        (fun k hk => hread k (by simp [hk])) hsub hsince
      exact List.rel_append hdone (List.Forall₂.cons he List.Forall₂.nil)
  | part r' _ hne hu _ =>
      -- a part of a line is not all that is left of whole lines
      exfalso
      rw [hu] at hunread
      cases rest with
      | nil => exact hne hunread
      | cons l rest =>
          apply w.follower.reader.open_line
          rw [hunread, fileBytes_cons]
          simp
  | eof hu =>
      refine .live file done rest hfile hrun hpos hb ?_ hunread hread hsub hsince
      simpa [Follower.resume, Tail.entries, Tail.send] using hdone

/-- The follower polls while its offset is beyond the end of the empty file. -/
theorem RotatedLog.Inv.poll_stale {done rest : List LogLine}
    (hfile : w.dir.files path = some []) (hpos : 0 < w.follower.reader.pos)
    (hb : w.follower.tail.bannerBuf = [] ∨ w.follower.reader.unread [] = [])
    (hdone : List.Forall₂ (EntryOf off) w.follower.tail.entries done)
    (hunread : w.follower.reader.unread [] <+: fileBytes rest)
    (hread : ∀ l ∈ rest, l.readable = true) (hsub : (done ++ rest).Sublist w.lines)
    (hsince : w.since = []) :
    (w.step off label path .poll).Inv off label path := by
  have hlive : w.live path = [] := by simp [RotatedLog.live, hfile]
  have hp := Reader.polled bufSize_pos [] w.follower.reader
  simp only [RotatedLog.step, hlive, Follower.poll]
  split
  · exact .stale done rest hfile hpos hb hdone hunread hread hsub hsince
  · generalize w.follower.reader.poll bufSize [] = p at hp
    obtain ⟨z, hz⟩ := hunread
    cases hp with
    | more r' hle _ hu =>
        refine .stale done rest hfile (lt_of_lt_of_le hpos hle) ?_ hdone ⟨z, ?_⟩ hread hsub hsince
        · simpa [Follower.resume, hu] using hb
        · simpa [Follower.resume, hu] using hz
    | line r' b hle _ hl hu =>
        rw [hu, List.append_assoc, List.cons_append] at hz
        obtain ⟨l, rest', rfl, rfl, hu'⟩ := first_line hl hz
        have hb : w.follower.tail.bannerBuf = [] := by
          rcases hb with hb | hb
          · exact hb
          · simp [hu] at hb
        obtain ⟨e, he, htake⟩ := takeBytes_line off label { w.follower with reader := r' }
          (hread l (by simp)) hb
        simp only [Follower.resume, htake]
        have hassoc : done ++ l :: rest' = (done ++ [l]) ++ rest' := by simp
        rw [hassoc] at hsub
        refine .stale (done ++ [l]) rest' hfile (lt_of_lt_of_le hpos hle) (Or.inl hb) ?_ ⟨z, hu'⟩
          (fun k hk => hread k (by simp [hk])) hsub hsince
        exact List.rel_append hdone (List.Forall₂.cons he.entryOf List.Forall₂.nil)
    | part r' hpos' hne hu hu' =>
        rw [hu] at hz
        obtain ⟨l, rest', rfl, hpre⟩ := first_part w.follower.reader.open_line hne hz
        have hb : w.follower.tail.bannerBuf = [] := by
          rcases hb with hb | hb
          · exact hb
          · exact absurd (hu.symm.trans hb) hne
        obtain ⟨hreader, done', hdone', hentries⟩ := takeBytes_part label
          { w.follower with reader := r' } (hread l (by simp)) hb hpre hdone
        have hassoc : done ++ l :: rest' = (done ++ [l]) ++ rest' := by simp
        rw [hassoc] at hsub
        -- nothing is left to read
        have hnil : (w.follower.resume off label (r', .line w.follower.reader.line)).reader.unread
            [] = [] := by
          simpa only [Follower.resume, hreader] using hu'
        refine .stale done' rest' hfile ?_ (Or.inr hnil) hentries ?_
          (fun k hk => hread k (by simp [hk]))
          ((hdone'.append (List.Sublist.refl rest')).trans hsub) hsince
        · simpa only [Follower.resume, hreader, hpos'] using hpos
        · rw [hnil]
          exact List.nil_prefix
    | eof hu =>
        refine .stale done rest hfile hpos hb ?_ ⟨z, hz⟩ hread hsub hsince
        simpa [Follower.resume, Tail.entries, Tail.send] using hdone

/-- **One step** of a permitted run. -/
theorem RotatedLog.Inv.step (h : w.Inv off label path) {e : LogEvent}
    (he : w.permits path e = true) : (w.step off label path e).Inv off label path := by
  cases e with
  | append l => exact h.append he
  | archive env cfg => exact h.archive env cfg
  | truncate env => exact h.truncate env
  | poll =>
      cases h with
      | live file done rest hfile hrun hpos hb hdone hunread hread hsub hsince =>
          exact .poll_live hfile hrun hpos hb hdone hunread hread hsub hsince
      | stale done rest hfile hpos hb hdone hunread hread hsub hsince =>
          exact .poll_stale hfile hpos hb hdone hunread hread hsub hsince

theorem entries_poll_of_atEof (off : ℤ → ℤ) (label : String) (he : w.atEof path = true) :
    w.follower.reader.unread (w.live path) = [] ∧
      (w.step off label path .poll).follower.tail.entries = w.follower.tail.entries := by
  have hp := Reader.polled bufSize_pos (w.live path) w.follower.reader
  simp only [RotatedLog.step, Follower.poll]
  rw [RotatedLog.atEof] at he
  generalize w.follower.reader.poll bufSize (w.live path) = p at hp he
  cases hp with
  | more => cases he
  | line => cases he
  | part => cases he
  | eof hu =>
      refine ⟨hu, ?_⟩
      split
      · rfl
      · simp [Follower.resume, Tail.entries, Tail.send]

/-- **Follow mode across rotation.**  In a run in which a line is appended only while the offset of
the follower is inside the file, a poll that reaches the end of the file leaves every line since the
last truncation sent or pending, and all that is sent or pending are entries of different lines. -/
theorem rotated_entries (off : ℤ → ℤ) (label path : String) (dir : LogDir) (seqBase : ℕ)
    (events : List LogEvent) (w : RotatedLog) (hdir : (dir.files path).isSome = true)
    (hw : w = events.foldl (RotatedLog.step off label path) (RotatedLog.start path dir seqBase))
    (hok : Run.Along (RotatedLog.step off label path) (fun w e => w.permits path e = true)
      (RotatedLog.start path dir seqBase) events)
    (heof : w.atEof path = true) :
    (∃ old new, (w.step off label path .poll).follower.tail.entries = old ++ new ∧
        List.Forall₂ (Carries off label) new w.since) ∧
      ∃ ls, ls.Sublist w.lines ∧
        List.Forall₂ (EntryOf off) (w.step off label path .poll).follower.tail.entries ls := by
  have hinv : w.Inv off label path := by
    rw [hw]
    exact hok.invariant _ (fun w e h he => h.step he) (RotatedLog.inv_start hdir seqBase)
  obtain ⟨hu, hentries⟩ := entries_poll_of_atEof off label heof
  rw [hentries]
  cases hinv with
  | live file done rest hfile _ hpos hb hdone hunread hread hsub hsince =>
      have hlive : w.live path = file := by simp [RotatedLog.live, hfile]
      rw [hlive, hunread] at hu
      obtain rfl : rest = [] := by
        cases rest with
        | nil => rfl
        | cons l rest => simp [fileBytes_cons] at hu
      rw [List.append_nil] at hsub hsince
      refine ⟨?_, done, hsub, hdone.imp fun e l h => h.entryOf⟩
      obtain ⟨old, rfl⟩ := hsince
      exact ⟨_, _, (List.take_append_drop old.length _).symm,
        List.forall₂_drop_append _ old w.since hdone⟩
  | stale done rest hfile hpos hb hdone hunread hread hsub hsince =>
      refine ⟨⟨_, [], (List.append_nil _).symm, ?_⟩, done, ?_, hdone⟩
      · rw [hsince]
        exact List.Forall₂.nil
      · exact (List.sublist_append_left done rest).trans hsub

end Runs

/-- A directory with an empty live file. -/
def emptyLog : LogDir := { files := fun p => if p = "api.log" then some [] else none }

/-- Rotation without a failure; nothing here is ever decompressed. -/
def quietEnv : RotateEnv := { gzip := id, fault := fun _ => none }

def readyLine : LogLine := ⟨1735689599, encode "ready".toList, by decide⟩

/-- A second later. -/
def againLine : LogLine := ⟨1735689600, encode "again".toList, by decide⟩

/-- A rotation that comes before the follower has read anything. -/
def earlyRotation : List LogEvent :=
  [.append readyLine, .archive quietEnv {}, .truncate quietEnv, .append againLine, .poll]

/-- A rotation that comes after the follower has read a line. -/
def lateRotation : List LogEvent :=
  [.append readyLine, .poll, .archive quietEnv {}, .truncate quietEnv, .append againLine]

def afterEvents (events : List LogEvent) : RotatedLog :=
  events.foldl (RotatedLog.step (fun _ => 0) "api" "api.log")
    (RotatedLog.start "api.log" emptyLog 0)

theorem rotated_entries_earlyRotation :
    Run.Along (RotatedLog.step (fun _ => 0) "api" "api.log")
        (fun w e => w.permits "api.log" e = true) (RotatedLog.start "api.log" emptyLog 0)
        earlyRotation ∧
      (afterEvents earlyRotation).atEof "api.log" = true ∧
      (∃ old new, ((afterEvents earlyRotation).step (fun _ => 0) "api" "api.log"
            .poll).follower.tail.entries = old ++ new ∧
          List.Forall₂ (Carries (fun _ => 0) "api") new (afterEvents earlyRotation).since) ∧
        ∃ ls, ls.Sublist (afterEvents earlyRotation).lines ∧
          List.Forall₂ (EntryOf (fun _ => 0)) ((afterEvents earlyRotation).step (fun _ => 0) "api"
            "api.log" .poll).follower.tail.entries ls :=
  have h : Run.Along (RotatedLog.step (fun _ => 0) "api" "api.log")
      (fun w e => w.permits "api.log" e = true) (RotatedLog.start "api.log" emptyLog 0)
      earlyRotation := by decide +kernel
  have he : (afterEvents earlyRotation).atEof "api.log" = true := by decide +kernel
  ⟨h, he, rotated_entries (fun _ => 0) "api" "api.log" emptyLog 0 earlyRotation _ (by decide) rfl
    h he⟩

/-- The line that is appended after the rotation is not read: the follower is at the end of a file
as long as the one that was truncated. -/
theorem lateRotation_loses_line :
    (afterEvents lateRotation).atEof "api.log" = true ∧
      (afterEvents lateRotation).since = [againLine] ∧
      ∀ e ∈ ((afterEvents lateRotation).step (fun _ => 0) "api" "api.log"
        .poll).follower.tail.entries, ¬ Carries (fun _ => 0) "api" e againLine := by
  have hentries : ((afterEvents lateRotation).step (fun _ => 0) "api" "api.log"
      .poll).follower.tail.entries = [⟨some 1735689599, "api", "ready".toList, 0, true⟩] := by
    decide +kernel
  refine ⟨by decide +kernel, by decide +kernel, fun e he => ?_⟩
  rw [hentries, List.mem_singleton] at he
  rintro ⟨text, -, h⟩
  have hts : e.tsUnix = some 1735689600 := congrArg Entry.tsUnix h
  rw [he] at hts
  exact absurd hts (by decide)

end Unitpm.Logs
