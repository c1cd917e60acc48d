import Unitpm.Lib.Frames

/-! # Reading lines off a file that grows

A buffered reader at an offset of a file, as a loop around `read_until` drives it.  One `poll` is
one look at the buffer, and at the file if the buffer is empty; between two polls the file may
change.  At the end of the file the reader hands out what it has of a line (`Outcome.line` without a
separator), or reports the end if it has nothing.

`unread` is what has not been handed out: a poll takes a line off its front or leaves it as it is
(`Reader.polled`), and what is appended to the file comes behind it (`Reader.unread_append`). -/

namespace TailReader

open Frames

/-- A reader: how far into the file it has read, what it has read but not looked at, and what it has
of the line it is in. -/
structure Reader (α : Type) (sep : α) where
  pos : ℕ
  buf : List α
  line : List α
  open_line : sep ∉ line
  held : line.length + buf.length ≤ pos

/-- What a poll hands out. -/
inductive Outcome (α : Type) where
  | more
  | line (l : List α)
  | eof

variable {α : Type} {sep : α}

/-- A reader that starts at an offset. -/
def Reader.start (sep : α) (pos : ℕ) : Reader α sep where
  pos := pos
  buf := []
  line := []
  open_line := List.not_mem_nil
  held := Nat.zero_le pos

/-- What has not been handed out. -/
def Reader.unread (file : List α) (r : Reader α sep) : List α :=
  r.line ++ (r.buf ++ file.drop r.pos)

/-- `fill_buf`: an empty buffer takes at most `cap` elements from the file. -/
def Reader.fill (cap : ℕ) (file : List α) (r : Reader α sep) : Reader α sep :=
  if r.buf = [] then
    { pos := r.pos + ((file.drop r.pos).take cap).length
      buf := (file.drop r.pos).take cap
      line := r.line
      open_line := r.open_line
      held := by have := r.held; omega }
  else r

/-- Take a line out of the buffer, or all that is in it; an empty buffer is the end of the file. -/
def Reader.take [DecidableEq α] (r : Reader α sep) : Reader α sep × Outcome α :=
  if r.buf = [] then
    if r.line = [] then (r, .eof)
    else
      ({ r with
          line := []
          open_line := by simp
          held := by have := r.held; rw [List.length_nil]; omega }, .line r.line)
  else if h : sep ∈ r.buf then
    ({ r with
        buf := (cut sep r.buf).2
        line := []
        open_line := by simp
        held := by
          have hcut : (cut sep r.buf).1 ++ (cut sep r.buf).2 = r.buf := cut_append_cut r.buf
          have := congrArg List.length hcut
          have := r.held
          rw [List.length_append] at *
          rw [List.length_nil]
          omega }, .line (r.line ++ (cut sep r.buf).1))
  else
    ({ r with
        buf := []
        line := r.line ++ r.buf
        open_line := by simp [r.open_line, h]
        held := by have := r.held; rw [List.length_append, List.length_nil]; omega }, .more)

/-- One turn of the loop of `read_until`. -/
def Reader.poll [DecidableEq α] (cap : ℕ) (file : List α) (r : Reader α sep) :
    Reader α sep × Outcome α := (r.fill cap file).take

/-! ### What a poll does -/

namespace Reader

theorem unread_start {file : List α} : (start sep file.length).unread file = [] := by
  simp [unread, start]

theorem unread_append {file : List α} {r : Reader α sep} (h : r.pos ≤ file.length)
    (chunk : List α) : r.unread (file ++ chunk) = r.unread file ++ chunk := by
  simp [unread, List.drop_append_of_le_length h]

theorem unread_nil_prefix_unread {r : Reader α sep} (file : List α) :
    r.unread [] <+: r.unread file := by
  refine ⟨file.drop r.pos, ?_⟩
  simp [unread]

theorem unread_of_pos_eq_zero {r : Reader α sep} (h : r.pos = 0) (file : List α) :
    r.unread file = file := by
  have hl := r.held
  have h1 : r.line = [] := List.length_eq_zero_iff.mp (by omega)
  have h2 : r.buf = [] := List.length_eq_zero_iff.mp (by omega)
  simp [unread, h1, h2, h]

/-- Filling the buffer moves elements from the file to the buffer. -/
theorem fill_spec {cap : ℕ} (hcap : 0 < cap) (file : List α) (r : Reader α sep) :
    (r.fill cap file).unread file = r.unread file ∧ r.pos ≤ (r.fill cap file).pos ∧
      (r.pos ≤ file.length → (r.fill cap file).pos ≤ file.length) ∧
      ((r.fill cap file).buf = [] → r.fill cap file = r ∧ r.buf = [] ∧ file.drop r.pos = []) := by
  rw [fill]
  split
  · rename_i h
    refine ⟨?_, Nat.le_add_right _ _, ?_, ?_⟩
    · have hd : file.drop (r.pos + ((file.drop r.pos).take cap).length) =
          (file.drop r.pos).drop cap := by
        rw [← List.drop_drop, List.length_take]
        by_cases hle : cap ≤ (file.drop r.pos).length
        · rw [Nat.min_eq_left hle]
        · rw [Nat.min_eq_right (by omega), List.drop_length, List.drop_eq_nil_of_le (by omega)]
      simp only [unread, hd, h, List.take_append_drop, List.nil_append]
    · simp only [List.length_take, List.length_drop]
      omega
    · intro hbuf
      have hd : file.drop r.pos = [] := by
        rcases List.take_eq_nil_iff.mp hbuf with h0 | h0
        · omega
        · exact h0
      refine ⟨?_, h, hd⟩
      obtain ⟨pos, buf, line, _, _⟩ := r
      obtain rfl : buf = [] := h
      simp [hd]
  · rename_i h
    exact ⟨rfl, Nat.le_refl _, id, fun hbuf => absurd hbuf h⟩

variable [DecidableEq α]

/-- What a poll can do.  It gathers a part of a line, hands out a whole line, hands out a part of a
line at the end of the file, or finds nothing. -/
inductive Polled (file : List α) (r : Reader α sep) : Reader α sep × Outcome α → Prop
  | more (r' : Reader α sep) (hpos : r.pos ≤ r'.pos)
      (hle : r.pos ≤ file.length → r'.pos ≤ file.length) (hu : r'.unread file = r.unread file) :
      Polled file r (r', .more)
  | line (r' : Reader α sep) (l : List α) (hpos : r.pos ≤ r'.pos)
      (hle : r.pos ≤ file.length → r'.pos ≤ file.length) (hl : sep ∉ l)
      (hu : r.unread file = l ++ sep :: r'.unread file) : Polled file r (r', .line (l ++ [sep]))
  | part (r' : Reader α sep) (hpos : r'.pos = r.pos) (hne : r.line ≠ [])
      (hu : r.unread file = r.line) (hu' : r'.unread file = []) : Polled file r (r', .line r.line)
  | eof (hu : r.unread file = []) : Polled file r (r, .eof)

theorem polled {cap : ℕ} (hcap : 0 < cap) (file : List α) (r : Reader α sep) :
    Polled file r (r.poll cap file) := by
  obtain ⟨hu, hpos, hle, hnil⟩ := fill_spec hcap file r
  rw [poll]
  generalize r.fill cap file = f at *
  by_cases hb : f.buf = []
  · obtain ⟨rfl, -, hd⟩ := hnil hb
    have hur : f.unread file = f.line := by simp [unread, hb, hd]
    by_cases hl : f.line = []
    · rw [take, if_pos hb, if_pos hl]
      exact Polled.eof (hur.trans hl)
    · rw [take, if_pos hb, if_neg hl]
      exact Polled.part _ rfl hl hur (by simp [unread, hb, hd])
  · by_cases hs : sep ∈ f.buf
    · obtain ⟨p, q, hpq, hp⟩ : ∃ p q, f.buf = p ++ sep :: q ∧ sep ∉ p :=
        List.eq_append_cons_of_mem hs
      have hcut : cut sep f.buf = (p ++ [sep], q) := by rw [hpq, cut_append_sep hp]
      have hf : sep ∉ f.line ++ p := by simp [f.open_line, hp]
      have hout : f.line ++ (cut sep f.buf).1 = f.line ++ p ++ [sep] := by simp [hcut]
      rw [take, if_neg hb, dif_pos hs, hout]
      exact Polled.line _ _ hpos hle hf (by rw [← hu]; simp [unread, hpq, cut_append_sep hp])
    · rw [take, if_neg hb, dif_neg hs]
      exact Polled.more _ hpos hle (by rw [← hu]; simp [unread])

end Reader

end TailReader
