import Unitpm.LogEntry
import Unitpm.Lib.Frames

/-! # The writer of log lines

`TimestampWriter::write` of `daemon::manager::logwriter` over many calls, and when the sink fails.

`stampLines_eq` says what one call sends and keeps in terms of the lines of what it has.  From it:
`writes_eq`, the bytes sent do not depend on how the stream is cut into calls, as long as no line is
longer than the buffer; and `tryWrite_buf_iff`, when a call that fails leaves the buffer as it
was. -/

namespace Unitpm.Logs

open Frames Utf8

/-! ### One call -/

/-- The line that a rest without a newline becomes if it is too long for the buffer. -/
def overflow (ts rest : List UInt8) : List UInt8 :=
  if maxLogBuf < rest.length then ts ++ rest ++ [lineFeed] else []

/-- What of a rest stays in the buffer. -/
def kept (rest : List UInt8) : List UInt8 := if maxLogBuf < rest.length then [] else rest

theorem overflow_of_le {rest : List UInt8} (h : rest.length ≤ maxLogBuf) (ts : List UInt8) :
    overflow ts rest = [] := if_neg (by omega)

theorem kept_of_le {rest : List UInt8} (h : rest.length ≤ maxLogBuf) : kept rest = rest :=
  if_neg (by omega)

/-- **The loop**: every complete line behind the timestamp, and the rest. -/
theorem stampLines_eq (ts : List UInt8) {cur : List UInt8} (hcur : lineFeed ∉ cur)
    (l : List UInt8) :
    stampLines ts cur l =
      ((split lineFeed (cur ++ l)).1.flatMap (fun line => ts ++ line) ++
        overflow ts (split lineFeed (cur ++ l)).2, kept (split lineFeed (cur ++ l)).2) := by
  induction l generalizing cur with
  | nil =>
      rw [List.append_nil, split_of_notMem hcur, stampLines, overflow, kept]
      split_ifs <;> rfl
  | cons b l ih =>
      rw [stampLines]
      by_cases hb : b = lineFeed
      · rw [if_pos hb, hb, split_append_sep hcur, ih List.not_mem_nil, List.nil_append,
          List.flatMap_cons]
        simp
      · have hcur' : lineFeed ∉ cur ++ [b] := by
          rw [List.mem_append, List.mem_singleton, not_or]
          exact ⟨hcur, Ne.symm hb⟩
        rw [if_neg hb, ih hcur', List.append_assoc, List.singleton_append]

theorem write_eq (w : TimestampWriter) (ts : List Char) (p : List UInt8) :
    w.write ts p =
      { buf := kept (split lineFeed (w.buf ++ p)).2
        written := w.written ++
          ((split lineFeed (w.buf ++ p)).1.flatMap (fun line => encode ts ++ line) ++
            overflow (encode ts) (split lineFeed (w.buf ++ p)).2) } := by
  rw [TimestampWriter.write, stampLines_eq _ List.not_mem_nil, List.nil_append]

/-! ### Many calls -/

/-- A new writer after these calls, all within the second `now`. -/
def writes (now : ℕ) (chunks : List (List UInt8)) : TimestampWriter :=
  chunks.foldl (fun w p => w.write (tsPrefix now) p) ⟨[], []⟩

/-- No line of the stream, its newline apart, is longer than the buffer. -/
def LinesFit (stream : List UInt8) : Prop :=
  (∀ line ∈ (split lineFeed stream).1, line.length ≤ maxLogBuf + 1) ∧
    (split lineFeed stream).2.length ≤ maxLogBuf

/-- The lines of the sink without their timestamps. -/
def unstamped (now : ℕ) (written : List UInt8) : List UInt8 :=
  (frames lineFeed written).flatMap fun line => line.drop (encode (tsPrefix now)).length

/-- A beginning of a stream of lines that fit. -/
theorem LinesFit.of_append {s p : List UInt8} (h : LinesFit (s ++ p)) : LinesFit s := by
  obtain ⟨hfull, hrest⟩ := h
  rw [split_append] at hfull hrest
  simp only [List.mem_append] at hfull
  refine ⟨fun line hline => hfull line (.inl hline), ?_⟩
  have hs : lineFeed ∉ (split lineFeed s).2 := notMem_snd_split s
  rcases notMem_or_exists lineFeed p with hp | ⟨q, m, rfl, hq⟩
  · -- the line that is open at the end of `s` is still open
    have hopen : lineFeed ∉ (split lineFeed s).2 ++ p := by
      rw [List.mem_append, not_or]
      exact ⟨hs, hp⟩
    rw [split_of_notMem hopen, List.length_append] at hrest
    omega
  · -- it ends in `p`
    have hopen : lineFeed ∉ (split lineFeed s).2 ++ q := by
      rw [List.mem_append, not_or]
      exact ⟨hs, hq⟩
    rw [← List.append_assoc, split_append_sep hopen] at hfull
    have hle := hfull _ (.inr List.mem_cons_self)
    simp only [List.length_append, List.length_singleton] at hle
    omega

/-- **The calls**: the complete lines of the stream are in the sink, each behind the timestamp, and
the rest is in the buffer. -/
theorem writes_of_linesFit (now : ℕ) {chunks : List (List UInt8)} (h : LinesFit chunks.flatten) :
    writes now chunks =
      { buf := (split lineFeed chunks.flatten).2
        written := (split lineFeed chunks.flatten).1.flatMap
          fun line => encode (tsPrefix now) ++ line } := by
  induction chunks using List.reverseRecOn with
  | nil => rfl
  | append_singleton chunks p ih =>
      rw [List.flatten_concat] at h ⊢
      have hrest := h.2
      have ih := ih h.of_append
      rw [split_append] at hrest ⊢
      rw [writes, List.foldl_concat, ← writes, ih, write_eq, overflow_of_le hrest, kept_of_le hrest,
        List.append_nil, List.flatMap_append]

theorem unstamped_flatMap (now : ℕ) {lines : List (List UInt8)}
    (h : ∀ line ∈ lines, ∃ p, line = p ++ [lineFeed] ∧ lineFeed ∉ p) :
    unstamped now (lines.flatMap fun line => encode (tsPrefix now) ++ line) = lines.flatten := by
  have hts : lineFeed ∉ encode (tsPrefix now) := fun hm =>
    newline_notMem_tsPrefix now (lineFeed_mem_encode.mp hm)
  induction lines with
  | nil => rfl
  | cons line lines ih =>
      obtain ⟨⟨p, rfl, hp⟩, hlines⟩ := List.forall_mem_cons.mp h
      have hstamped : lineFeed ∉ encode (tsPrefix now) ++ p := by
        rw [List.mem_append, not_or]
        exact ⟨hts, hp⟩
      have hcons : encode (tsPrefix now) ++ (p ++ [lineFeed]) ++
          lines.flatMap (fun line => encode (tsPrefix now) ++ line) =
          (encode (tsPrefix now) ++ p) ++ lineFeed ::
            lines.flatMap (fun line => encode (tsPrefix now) ++ line) := by simp
      have ih := ih hlines
      rw [unstamped] at ih
      rw [unstamped, List.flatMap_cons, hcons, frames_of_ne_nil (by simp),
        cut_append_sep hstamped, List.flatMap_cons, ih, List.append_assoc, List.drop_left,
        List.flatten_cons]

/-- **The writer does not depend on the calls.**  In whatever pieces a stream arrives whose lines
fit: every complete line is in the sink once and in order, behind one timestamp; without the
timestamps the sink and the buffer are the stream; and between the calls the buffer holds neither a
newline nor more than `MAX_LOG_BUF` bytes. -/
theorem writes_eq (now : ℕ) (chunks : List (List UInt8)) (h : LinesFit chunks.flatten) :
    (writes now chunks).written = (split lineFeed chunks.flatten).1.flatMap
        (fun line => encode (tsPrefix now) ++ line) ∧
      (∀ chunks', chunks'.flatten = chunks.flatten →
        (writes now chunks').written = (writes now chunks).written) ∧
      unstamped now (writes now chunks).written ++ (writes now chunks).buf = chunks.flatten ∧
      ∀ m, m <+: chunks →
        lineFeed ∉ (writes now m).buf ∧ (writes now m).buf.length ≤ maxLogBuf := by
  refine ⟨?_, ?_, ?_, ?_⟩
  · rw [writes_of_linesFit now h]
  · intro chunks' heq
    rw [writes_of_linesFit now h, writes_of_linesFit now (heq ▸ h), heq]
  · rw [writes_of_linesFit now h]
    simp only
    rw [unstamped_flatMap now fun line hline => exists_of_mem_split hline, flatten_split]
  · rintro m ⟨t, rfl⟩
    rw [List.flatten_append] at h
    rw [writes_of_linesFit now h.of_append]
    exact ⟨notMem_snd_split _, h.of_append.2⟩

/-- The stream `a`, newline, `b`, in two pieces. -/
theorem writes_eq_twoPieces :
    (writes 0 [[0x61, lineFeed], [0x62]]).written =
        (split lineFeed [0x61, lineFeed, 0x62]).1.flatMap
          (fun line => encode (tsPrefix 0) ++ line) ∧
      (∀ chunks', chunks'.flatten = [0x61, lineFeed, 0x62] →
        (writes 0 chunks').written = (writes 0 [[0x61, lineFeed], [0x62]]).written) ∧
      unstamped 0 (writes 0 [[0x61, lineFeed], [0x62]]).written ++
        (writes 0 [[0x61, lineFeed], [0x62]]).buf = [0x61, lineFeed, 0x62] ∧
      ∀ m, m <+: [[0x61, lineFeed], [0x62]] →
        lineFeed ∉ (writes 0 m).buf ∧ (writes 0 m).buf.length ≤ maxLogBuf :=
  writes_eq 0 [[0x61, lineFeed], [0x62]] ⟨by decide, by decide⟩

/-! ### A sink that fails -/

/-- What a `write_all` that fails reports, and how many bytes it has written before. -/
structure SinkFault where
  text : String
  taken : ℕ := 0

/-- `TimestampWriter::write` with a sink that may fail. -/
def TimestampWriter.tryWrite (w : TimestampWriter) (fault : Option SinkFault) (ts : List Char)
    (p : List UInt8) : TimestampWriter × Except String ℕ :=
  let r := stampLines (encode ts) [] (w.buf ++ p)
  if r.1 = [] then ({ w with buf := r.2 }, .ok p.length)
  else match fault with
    | none => ({ buf := r.2, written := w.written ++ r.1 }, .ok p.length)
    | some f => ({ buf := r.2, written := w.written ++ r.1.take f.taken }, .error f.text)

section Failing

variable (w : TimestampWriter) (ts : List Char) (p : List UInt8)

theorem tryWrite_none : w.tryWrite none ts p = (w.write ts p, .ok p.length) := by
  simp only [TimestampWriter.tryWrite, TimestampWriter.write]
  split_ifs with h
  · rw [h, List.append_nil]
  · rfl

theorem stamped_eq_nil_iff (ts l : List UInt8) :
    (stampLines ts [] l).1 = [] ↔ lineFeed ∉ l ∧ l.length ≤ maxLogBuf := by
  rw [stampLines_eq ts List.not_mem_nil, List.nil_append, List.append_eq_nil_iff]
  by_cases hl : lineFeed ∈ l
  · obtain ⟨q, m, rfl, hq⟩ := List.eq_append_cons_of_mem hl
    rw [split_append_sep hq]
    simp
  · rw [split_of_notMem hl, List.flatMap_nil, and_iff_right rfl, and_iff_right hl, overflow]
    by_cases hlong : maxLogBuf < l.length
    · rw [if_pos hlong]
      exact iff_of_false (by simp) (by omega)
    · rw [if_neg hlong]
      exact iff_of_true rfl (by omega)

/-- The bytes that are written end in a newline and what is in the buffer, or the buffer is empty
and they end in a rest that is too long for it. -/
def Refills (buf p : List UInt8) : Prop :=
  (lineFeed ∉ buf ∧ buf.length ≤ maxLogBuf ∧ lineFeed :: buf <:+ p) ∨
    (buf = [] ∧ maxLogBuf < (split lineFeed p).2.length)

instance (buf p : List UInt8) : Decidable (Refills buf p) := inferInstanceAs (Decidable (_ ∨ _))

/-- A rest that is the buffer again. -/
theorem kept_eq_iff {buf p : List UInt8} (h : ¬ (lineFeed ∉ buf ++ p ∧
    (buf ++ p).length ≤ maxLogBuf)) :
    kept (split lineFeed (buf ++ p)).2 = buf ↔ Refills buf p := by
  unfold kept
  split_ifs with hlong
  · constructor
    · rintro rfl
      exact .inr ⟨rfl, hlong⟩
    · rintro (⟨hbuf, hle, q, rfl⟩ | ⟨rfl, -⟩)
      · rw [← List.append_assoc, snd_split_append_sep, split_of_notMem hbuf] at hlong
        exact absurd hlong (Nat.not_lt.mpr hle)
      · rfl
  · constructor
    · intro heq
      have hbuf : lineFeed ∉ buf := heq ▸ notMem_snd_split (buf ++ p)
      have hp : lineFeed ∈ p := by
        by_contra hp
        have hnone : lineFeed ∉ buf ++ p := by
          rw [List.mem_append, not_or]
          exact ⟨hbuf, hp⟩
        rw [split_of_notMem hnone] at hlong
        exact h ⟨hnone, Nat.not_lt.mp hlong⟩
      -- the last newline is one of `p`, so the rest is a rest of `p`
      obtain ⟨q, hq⟩ := exists_of_mem hp
      have hrest : (split lineFeed (buf ++ p)).2 = (split lineFeed p).2 := by
        conv_lhs => rw [hq, ← List.append_assoc, snd_split_append_sep]
        rw [split_of_notMem (notMem_snd_split p)]
      rw [hrest] at heq hlong
      refine .inl ⟨hbuf, heq ▸ Nat.not_lt.mp hlong, q, ?_⟩
      rw [← heq]
      exact hq.symm
    · rintro (⟨hbuf, -, q, rfl⟩ | ⟨rfl, hlong'⟩)
      · rw [← List.append_assoc, snd_split_append_sep, split_of_notMem hbuf]
      · exact absurd hlong' hlong

/-- **A call that fails** leaves the buffer as it was exactly if it refills it. -/
theorem tryWrite_buf_iff (fault : Option SinkFault) :
    (∀ e, (w.tryWrite fault ts p).2 = .error e → (w.tryWrite fault ts p).1.buf = w.buf) ↔
      fault = none ∨ (lineFeed ∉ w.buf ++ p ∧ (w.buf ++ p).length ≤ maxLogBuf) ∨
        Refills w.buf p := by
  cases fault with
  | none =>
      rw [tryWrite_none]
      exact iff_of_true (fun e he => by cases he) (.inl rfl)
  | some f =>
      by_cases hsent : lineFeed ∉ w.buf ++ p ∧ (w.buf ++ p).length ≤ maxLogBuf
      · have hnil := (stamped_eq_nil_iff (encode ts) _).mpr hsent
        have hok : (w.tryWrite (some f) ts p).2 = .ok p.length := by
          simp only [TimestampWriter.tryWrite]
          rw [if_pos hnil]
        refine iff_of_true ?_ (.inr (.inl hsent))
        intro e he
        rw [hok] at he
        cases he
      · have hne := mt (stamped_eq_nil_iff (encode ts) _).mp hsent
        have hfail : w.tryWrite (some f) ts p =
            ({ buf := kept (split lineFeed (w.buf ++ p)).2
               written := w.written ++
                (stampLines (encode ts) [] (w.buf ++ p)).1.take f.taken }, .error f.text) := by
          simp only [TimestampWriter.tryWrite]
          rw [if_neg hne, stampLines_eq (encode ts) List.not_mem_nil, List.nil_append]
        rw [hfail, or_iff_right (Option.some_ne_none f), or_iff_right hsent,
          ← kept_eq_iff hsent]
        exact ⟨fun h => h f.text rfl, fun h e _ => h⟩

end Failing

/-- The open line in the buffer is lost when the sink refuses the line it ends in. -/
theorem failed_write_drops_line :
    let w : TimestampWriter := ⟨[0x61], []⟩
    let r := w.tryWrite (some { text := "No space left on device (os error 28)" }) (tsPrefix 0)
      [0x62, lineFeed]
    r.2 = .error "No space left on device (os error 28)" ∧ r.1.buf = [] ∧ r.1.buf ≠ w.buf := by
  decide +kernel

end Unitpm.Logs
