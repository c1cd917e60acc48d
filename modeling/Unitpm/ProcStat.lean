import Unitpm.Lib.Str
import Unitpm.Lib.Utf8
import Mathlib.Algebra.Group.Int.Defs
import Mathlib.Data.Int.Notation
import Mathlib.Tactic.Common

/-! # Lines of `/proc/<pid>/stat`

The readers of `metrics::proctree` take single fields out of the stat line of a process: `get_ppid`
the parent, `read_proc_stat` the processor time and the resident set, `read_stat_rss` the resident
set alone.  The second field is the name of the process, any bytes between parentheses, so all three
begin behind the last closing parenthesis and count the fields from there.

A `StatLine` is what the kernel formats; the readers work on its bytes.  Behind the name there are
only a letter and decimal numbers, so the last parenthesis is the one behind the name
(`rposition_bytes`), and the pieces between white space are the fields (`split_rest`). -/

namespace Unitpm.Metrics

open Rust.Str Utf8

/-! ### The readers -/

/-- The values of `MetricsError` that the readers of a stat line return; an `Io` error is the file
that cannot be read, or a field that is not a string. -/
inductive MetricsError where
  | io
  | invalidStatFormat
  | invalidStatValue
deriving DecidableEq

/-- How a reader fails: with an error, or by a slice that begins behind the end. -/
inductive Fault where
  | error (e : MetricsError)
  | panic
deriving DecidableEq

/-- `u8::is_ascii_whitespace`. -/
def isAsciiWhitespace (b : UInt8) : Bool :=
  b == 32 || b == 9 || b == 10 || b == 12 || b == 13

/-- The closing parenthesis. -/
def closeParen : UInt8 := 41

/-- `rposition(|&b| b == b)`: where the last one is. -/
def rposition (b : UInt8) : List UInt8 → Option ℕ
  | [] => none
  | x :: xs =>
      match rposition b xs with
      | some i => some (i + 1)
      | none => if x = b then some 0 else none

/-- `split(u8::is_ascii_whitespace)`: the pieces, also the empty ones. -/
def splitAscii (l : List UInt8) : List (List UInt8) := l.splitOnP isAsciiWhitespace

/-- `iter.next().ok_or(InvalidStatFormat)?`, with what is left of the iterator. -/
def nextPiece : List (List UInt8) → Except Fault (List UInt8 × List (List UInt8))
  | [] => .error (.error .invalidStatFormat)
  | w :: ws => .ok (w, ws)

/-- The loop that takes `n` pieces and looks at none of them. -/
def skipPieces : ℕ → List (List UInt8) → Except Fault (List (List UInt8))
  | 0, ws => .ok ws
  | n + 1, ws => do
      let (_, ws) ← nextPiece ws
      skipPieces n ws

/-- `from_utf8` and then `parse` of a signed type with the values from `-2^k` to `2^k - 1`. -/
def parseBits (k : ℕ) (w : List UInt8) : Except Fault ℤ :=
  match decode w with
  | none => .error (.error .io)
  | some s =>
      match parseSigned (2 ^ k) (2 ^ k - 1) s with
      | none => .error (.error .invalidStatValue)
      | some n => .ok n

/-- `parse_field`. -/
def parseField (ws : List (List UInt8)) : Except Fault (ℤ × List (List UInt8)) := do
  let (w, ws) ← nextPiece ws
  let n ← parseBits 63 w
  return (n, ws)

/-- The contents of the file, if it can be read. -/
def readFile (file : Option (List UInt8)) : Except Fault (List UInt8) :=
  match file with
  | none => .error (.error .io)
  | some bytes => .ok bytes

/-- Where the last closing parenthesis is. -/
def lastParen (bytes : List UInt8) : Except Fault ℕ :=
  match rposition closeParen bytes with
  | none => .error (.error .invalidStatFormat)
  | some i => .ok i

/-- `&bytes[i..]`. -/
def sliceFrom (i : ℕ) (bytes : List UInt8) : Except Fault (List UInt8) :=
  if i ≤ bytes.length then .ok (bytes.drop i) else .error .panic

/-- `get_ppid`. -/
def getPpid (file : Option (List UInt8)) : Except Fault ℤ := do
  let bytes ← readFile file
  let i ← lastParen bytes
  if bytes.length ≤ i + 2 then throw (.error .invalidStatFormat)
  let rest ← sliceFrom (i + 2) bytes
  let (_, ws) ← nextPiece (splitAscii rest)
  let (ppid, _) ← nextPiece ws
  parseBits 31 ppid

/-- `read_proc_stat`: the ticks, a sum that wraps around, and the pages. -/
def readProcStat (file : Option (List UInt8)) : Except Fault (ℤ × ℤ) := do
  let bytes ← readFile file
  let i ← lastParen bytes
  let rest ← sliceFrom (i + 2) bytes
  let ws ← skipPieces 11 (splitAscii rest)
  let (utime, ws) ← parseField ws
  let (stime, ws) ← parseField ws
  let ws ← skipPieces 8 ws
  let (rss, _) ← parseField ws
  return ((utime + stime).bmod (2 ^ 64), rss)

/-- `read_stat_rss`. -/
def readStatRss (file : Option (List UInt8)) : Except Fault ℤ := do
  let bytes ← readFile file
  let i ← lastParen bytes
  let rest ← sliceFrom (i + 2) bytes
  let ws ← skipPieces 21 (splitAscii rest)
  let (rss, _) ← parseField ws
  return rss

/-! ### The line -/

/-- A number as `%d` formats it. -/
def decimal (n : ℤ) : List Char :=
  if n < 0 then '-' :: padZero 0 n.natAbs else padZero 0 n.natAbs

/-- `n` fits a signed type of `k + 1` bits. -/
def Fits (k : ℕ) (n : ℤ) : Prop := -2 ^ k ≤ n ∧ n < 2 ^ k

/-- The fields of a stat line, as proc(5) names them, and the fields behind `rss`. -/
structure StatLine where
  pid : ℕ
  comm : List UInt8
  state : Char
  ppid : ℤ
  pgrp : ℤ
  session : ℤ
  ttyNr : ℤ
  tpgid : ℤ
  flags : ℤ
  minflt : ℤ
  cminflt : ℤ
  majflt : ℤ
  cmajflt : ℤ
  utime : ℤ
  stime : ℤ
  cutime : ℤ
  cstime : ℤ
  priority : ℤ
  nice : ℤ
  numThreads : ℤ
  itrealvalue : ℤ
  starttime : ℤ
  vsize : ℤ
  rss : ℤ
  more : List ℤ
  state_alpha : state.isAlpha = true
  ppid_fits : Fits 31 ppid
  utime_fits : Fits 63 utime
  stime_fits : Fits 63 stime
  ticks_fits : Fits 63 (utime + stime)
  rss_fits : Fits 63 rss

namespace StatLine

/-- The numbers behind the state. -/
def numbers (l : StatLine) : List ℤ :=
  l.ppid :: l.pgrp :: l.session :: l.ttyNr :: l.tpgid :: l.flags :: l.minflt :: l.cminflt ::
    l.majflt :: l.cmajflt :: l.utime :: l.stime :: l.cutime :: l.cstime :: l.priority :: l.nice ::
    l.numThreads :: l.itrealvalue :: l.starttime :: l.vsize :: l.rss :: l.more

/-- The words behind the name. -/
def words (l : StatLine) : List (List Char) := [l.state] :: l.numbers.map decimal

/-- What stands behind the name and a blank: the words, a blank between two of them, and a line
feed. -/
def tail (l : StatLine) : List Char := [' '].intercalate l.words ++ ['\n']

/-- The line, as the kernel formats it. -/
def bytes (l : StatLine) : List UInt8 :=
  encode (padZero 0 l.pid ++ [' ', '(']) ++ l.comm ++ closeParen :: encode (' ' :: l.tail)

end StatLine

/-! ### Numbers in the line -/

theorem mem_decimal {n : ℤ} {c : Char} (h : c ∈ decimal n) : c = '-' ∨ c.isDigit = true := by
  unfold decimal at h
  split_ifs at h
  · rcases List.mem_cons.mp h with rfl | h
    · exact .inl rfl
    · exact .inr (isDigit_of_mem_padZero c h)
  · exact .inr (isDigit_of_mem_padZero c h)

theorem parseSigned_decimal {k : ℕ} {n : ℤ} (h : Fits k n) :
    parseSigned (2 ^ k) (2 ^ k - 1) (decimal n) = some n := by
  obtain ⟨hlo, hhi⟩ := h
  have hcast : ((2 ^ k : ℕ) : ℤ) = 2 ^ k := by push_cast; rfl
  unfold decimal
  split_ifs with hn
  · have habs : n.natAbs ≤ 2 ^ k := by omega
    have hc : padZero 0 n.natAbs ≠ [] ∧ (padZero 0 n.natAbs).all Char.isDigit ∧
        digitsVal (padZero 0 n.natAbs) ≤ 2 ^ k := by
      refine ⟨padZero_ne_nil, List.all_eq_true.2 isDigit_of_mem_padZero, ?_⟩
      rw [digitsVal_padZero]
      exact habs
    show (if _ then _ else _) = _
    rw [if_pos hc, digitsVal_padZero]
    congr 1
    omega
  · have habs : n.natAbs ≤ 2 ^ k - 1 := by omega
    rw [parseSigned_padZero habs]
    congr 1
    omega

theorem parseBits_decimal {k : ℕ} {n : ℤ} (h : Fits k n) :
    parseBits k (encode (decimal n)) = .ok n := by
  unfold parseBits
  rw [decode_encode]
  simp only [parseSigned_decimal h]

theorem parseField_decimal {n : ℤ} (h : Fits 63 n) (ws : List (List UInt8)) :
    parseField (encode (decimal n) :: ws) = .ok (n, ws) := by
  simp [parseField, nextPiece, parseBits_decimal h, bind, Except.bind, pure, Except.pure]

/-! ### The pieces of the line -/

theorem mem_of_mem_encode {l : List Char} {b : UInt8} (hb : b ∈ encode l) (h : b.toNat < 128) :
    ∃ c ∈ l, c.toNat = b.toNat := by
  obtain ⟨c, hc, hbc⟩ := List.mem_flatMap.mp hb
  exact ⟨c, hc, toNat_of_mem_encodeChar hbc h⟩

/-- Words with blanks between them hold blanks and what is in the words. -/
theorem eq_of_mem_intercalate {ws : List (List Char)} {c : Char}
    (h : c ∈ [' '].intercalate ws) : c = ' ' ∨ ∃ w ∈ ws, c ∈ w := by
  induction ws with
  | nil => simp [List.intercalate] at h
  | cons w ws ih =>
      cases ws with
      | nil => exact .inr ⟨w, List.mem_cons_self, by simpa [List.intercalate] using h⟩
      | cons v ws =>
          have hsplit : [' '].intercalate (w :: v :: ws) =
              w ++ ' ' :: [' '].intercalate (v :: ws) := by simp [List.intercalate]
          rw [hsplit, List.mem_append, List.mem_cons] at h
          rcases h with h | h | h
          · exact .inr ⟨w, List.mem_cons_self, h⟩
          · exact .inl h
          · rcases ih h with h | ⟨u, hu, hcu⟩
            · exact .inl h
            · exact .inr ⟨u, List.mem_cons_of_mem w hu, hcu⟩

theorem toNat_of_isAsciiWhitespace {b : UInt8} (h : isAsciiWhitespace b = true) :
    b.toNat = 32 ∨ b.toNat = 9 ∨ b.toNat = 10 ∨ b.toNat = 12 ∨ b.toNat = 13 := by
  simp only [isAsciiWhitespace, Bool.or_eq_true, beq_iff_eq] at h
  rcases h with (((rfl | rfl) | rfl) | rfl) | rfl <;> decide

namespace StatLine

theorem of_mem_words (l : StatLine) {w : List Char} (hw : w ∈ l.words) {c : Char} (hc : c ∈ w) :
    c = '-' ∨ c.isDigit = true ∨ c.isAlpha = true := by
  rcases List.mem_cons.mp hw with rfl | hw
  · obtain rfl := List.mem_singleton.mp hc
    exact .inr (.inr l.state_alpha)
  · obtain ⟨n, -, rfl⟩ := List.mem_map.mp hw
    rcases mem_decimal hc with h | h
    · exact .inl h
    · exact .inr (.inl h)

theorem toNat_of_mem_words (l : StatLine) {w : List Char} (hw : w ∈ l.words) {c : Char}
    (hc : c ∈ w) : 45 ≤ c.toNat := by
  rcases l.of_mem_words hw hc with rfl | h | h
  · decide
  · have h0 : '0'.toNat = 48 := rfl
    have := (Char.isDigit_iff_toNat.mp h).1
    omega
  · have he : c.isAlpha = (decide ('A'.val ≤ c.val ∧ c.val ≤ 'Z'.val) ||
        (decide ('a'.val ≤ c.val) && decide (c.val ≤ 'z'.val))) := rfl
    simp only [he, Bool.or_eq_true, Bool.and_eq_true, decide_eq_true_eq,
      UInt32.le_iff_toNat_le] at h
    have hv : c.toNat = c.val.toNat := rfl
    have hA : 'A'.val.toNat = 65 := rfl
    have ha : 'a'.val.toNat = 97 := rfl
    omega

theorem isAsciiWhitespace_of_mem_words (l : StatLine) {w : List Char} (hw : w ∈ l.words) :
    ∀ b ∈ encode w, isAsciiWhitespace b = false := by
  intro b hb
  apply Bool.eq_false_iff.mpr
  intro hws
  have hn := toNat_of_isAsciiWhitespace hws
  obtain ⟨c, hc, hcb⟩ := mem_of_mem_encode hb (by omega)
  have := l.toNat_of_mem_words hw hc
  omega

theorem closeParen_notMem (l : StatLine) : closeParen ∉ encode (' ' :: l.tail) := by
  intro hb
  have h41 : closeParen.toNat = 41 := rfl
  obtain ⟨c, hc, hcb⟩ := mem_of_mem_encode hb (by omega)
  have hblank : ' '.toNat = 32 := rfl
  have hfeed : '\n'.toNat = 10 := rfl
  rcases List.mem_cons.mp hc with rfl | hc
  · omega
  rcases List.mem_append.mp hc with hc | hc
  · rcases eq_of_mem_intercalate hc with rfl | ⟨w, hw, hcw⟩
    · omega
    · have := l.toNat_of_mem_words hw hcw
      omega
  · obtain rfl := List.mem_singleton.mp hc
    omega

end StatLine

/-- The last parenthesis is the one with none behind it. -/
theorem rposition_append_cons {b : UInt8} (p : List UInt8) {q : List UInt8} (hq : b ∉ q) :
    rposition b (p ++ b :: q) = some p.length := by
  have hnone : ∀ l : List UInt8, b ∉ l → rposition b l = none := by
    intro l hl
    induction l with
    | nil => rfl
    | cons x l ih =>
        obtain ⟨hx, hl⟩ := List.ne_and_not_mem_of_not_mem_cons hl
        rw [rposition, ih hl]
        exact if_neg fun h => hx h.symm
  induction p with
  | nil =>
      rw [List.nil_append, rposition, hnone q hq]
      exact if_pos rfl
  | cons x p ih => rw [List.cons_append, rposition, ih]; rfl

/-- Words without white space, a blank between two of them and a line feed at the end, are split
again, with an empty piece behind the line feed. -/
theorem splitAscii_words (w : List Char) (ws : List (List Char))
    (h : ∀ v ∈ w :: ws, ∀ b ∈ encode v, isAsciiWhitespace b = false) :
    splitAscii (encode ([' '].intercalate (w :: ws) ++ ['\n'])) =
      (w :: ws).map encode ++ [[]] := by
  induction ws generalizing w with
  | nil =>
      have hbytes : encode ([' '].intercalate [w] ++ ['\n']) = encode w ++ 10 :: [] := by
        simp [List.intercalate, lineFeed]
      rw [hbytes, splitAscii,
        List.splitOnP_append_cons_of_forall_mem (h w List.mem_cons_self) 10 (by decide)]
      rfl
  | cons v ws ih =>
      have hbytes : encode ([' '].intercalate (w :: v :: ws) ++ ['\n']) =
          encode w ++ 32 :: encode ([' '].intercalate (v :: ws) ++ ['\n']) := by
        have hblank : String.utf8EncodeChar ' ' = [32] := by decide
        simp [List.intercalate, hblank]
      rw [hbytes, splitAscii,
        List.splitOnP_append_cons_of_forall_mem (h w List.mem_cons_self) 32 (by decide)]
      have hrest := ih v fun u hu => h u (List.mem_cons_of_mem w hu)
      rw [splitAscii] at hrest
      rw [hrest]
      rfl

namespace StatLine

theorem splitAscii_tail (l : StatLine) :
    splitAscii (encode l.tail) =
      encode [l.state] :: (l.numbers.map fun n => encode (decimal n)) ++ [[]] := by
  rw [tail, words, splitAscii_words [l.state] (l.numbers.map decimal)
    fun v hv => l.isAsciiWhitespace_of_mem_words hv]
  simp only [List.map_cons, List.map_map]
  rfl

/-- Where the parenthesis behind the name stands. -/
def nameEnd (l : StatLine) : ℕ := (encode (padZero 0 l.pid ++ [' ', '(']) ++ l.comm).length

theorem lastParen_bytes (l : StatLine) : lastParen l.bytes = .ok l.nameEnd := by
  rw [lastParen, bytes, rposition_append_cons _ l.closeParen_notMem]
  rfl

theorem bytes_eq (l : StatLine) :
    l.bytes = (encode (padZero 0 l.pid ++ [' ', '(']) ++ l.comm ++ [closeParen, 32]) ++
      encode l.tail := by
  have hblank : String.utf8EncodeChar ' ' = [32] := by decide
  rw [bytes, encode_cons, hblank]
  simp only [List.append_assoc, List.cons_append, List.nil_append]

theorem length_before_tail (l : StatLine) :
    (encode (padZero 0 l.pid ++ [' ', '(']) ++ l.comm ++ [closeParen, 32]).length =
      l.nameEnd + 2 := by
  rw [List.length_append]
  rfl

theorem sliceFrom_bytes (l : StatLine) :
    sliceFrom (l.nameEnd + 2) l.bytes = .ok (encode l.tail) := by
  have hlen := l.length_before_tail
  have hle : l.nameEnd + 2 ≤ l.bytes.length := by
    rw [bytes_eq, List.length_append, hlen]
    omega
  rw [sliceFrom, if_pos hle, bytes_eq, ← hlen, List.drop_left]

theorem nameEnd_lt (l : StatLine) : l.nameEnd + 2 < l.bytes.length := by
  have htail : 0 < (encode l.tail).length := by
    rw [tail, encode_append, List.length_append]
    exact Nat.lt_add_left _ (by decide)
  rw [bytes_eq, List.length_append, l.length_before_tail]
  omega

/-! ### The readers on a line -/

theorem getPpid_bytes (l : StatLine) : getPpid (some l.bytes) = .ok l.ppid := by
  have hlt := l.nameEnd_lt
  have hppid := parseBits_decimal l.ppid_fits
  simp only [getPpid, readFile, l.lastParen_bytes, l.sliceFrom_bytes, l.splitAscii_tail, numbers,
    List.map_cons, List.cons_append, nextPiece, bind, Except.bind]
  rw [if_neg (by omega)]
  exact hppid

theorem readProcStat_bytes (l : StatLine) :
    readProcStat (some l.bytes) = .ok (l.utime + l.stime, l.rss) := by
  have hu := fun ws => parseField_decimal l.utime_fits ws
  have hs := fun ws => parseField_decimal l.stime_fits ws
  have hr := fun ws => parseField_decimal l.rss_fits ws
  have hsum : (l.utime + l.stime).bmod (2 ^ 64) = l.utime + l.stime := by
    obtain ⟨hlo, hhi⟩ := l.ticks_fits
    exact Int.bmod_eq_of_le (by omega) (by omega)
  simp only [readProcStat, readFile, l.lastParen_bytes, l.sliceFrom_bytes, l.splitAscii_tail,
    numbers, List.map_cons, List.cons_append, skipPieces, nextPiece, hu, hs, hr, hsum, bind,
    Except.bind, pure, Except.pure]

theorem readStatRss_bytes (l : StatLine) : readStatRss (some l.bytes) = .ok l.rss := by
  have hr := fun ws => parseField_decimal l.rss_fits ws
  simp only [readStatRss, readFile, l.lastParen_bytes, l.sliceFrom_bytes, l.splitAscii_tail,
    numbers, List.map_cons, List.cons_append, skipPieces, nextPiece, hr, bind, Except.bind, pure,
    Except.pure]

end StatLine

/-- The three readers take the same process from a line: the parent, the ticks and the pages that
the kernel wrote, whatever the name is. -/
theorem stat_readers_agree (l : StatLine) :
    getPpid (some l.bytes) = .ok l.ppid ∧
      readProcStat (some l.bytes) = .ok (l.utime + l.stime, l.rss) ∧
      readStatRss (some l.bytes) = .ok l.rss :=
  ⟨l.getPpid_bytes, l.readProcStat_bytes, l.readStatRss_bytes⟩

end Unitpm.Metrics
