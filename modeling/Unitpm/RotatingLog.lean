import Unitpm.LogWriter
import Unitpm.Retention

/-! # A log that is written and rotated

`TimestampWriter` with a path, of `daemon::manager::logwriter`, over `rotate_now_cfg`: lines are
appended to the live file, `maybe_rotate` looks at its size and at the time since the last rotation,
and `setup_logs` does the same before it opens the file again for a new writer.

`rotation_keeps_log`: the archives, from the oldest, and the live file together are the file that
the same writes make without any rotation, but for what `keep` has dropped, and each of them is made
of whole lines. -/

namespace Unitpm.Logs

open Frames Utf8 Run

namespace LogDir

/-! ### The decision -/

/-- `RotateConfig` in full; times are in nanoseconds. -/
structure RotateKnobs extends RotateConfig where
  maxBytes : ℤ := 50 * 1024 * 1024
  maxAge : ℕ := 7 * 24 * 3600 * 1000000000
  notifEmpty : Bool := true

def RotateKnobs.bySize (cfg : RotateKnobs) (len : ℕ) : Bool :=
  decide (0 < cfg.maxBytes) && decide (cfg.maxBytes ≤ len)

def RotateKnobs.byAge (cfg : RotateKnobs) (elapsed : ℕ) : Bool :=
  decide (0 < cfg.maxAge) && decide (cfg.maxAge ≤ elapsed)

/-- `rotate_now_cfg`, when `elapsed` has gone by since the anchor. -/
def rotateNow (env : RotateEnv) (cfg : RotateKnobs) (path : String) (elapsed : ℕ) (d : LogDir) :
    LogDir × Bool :=
  match d.files path with
  | none => (d, false)
  | some data =>
      if cfg.notifEmpty && data.isEmpty then (d, false)
      else if !cfg.bySize data.length && !cfg.byAge elapsed then (d, false)
      else (rotateChain env cfg.toRotateConfig path d, true)

end LogDir

open LogDir

/-! ### The writer -/

/-- What one check reads of the clock: the time in nanoseconds, what goes by until the age is looked
at, and the time afterwards. -/
structure Clock where
  now : ℤ
  lag : ℕ := 0
  later : ℤ

/-- `elapsed` of what `nanos_to_instant` returns. -/
def Clock.elapsed (c : Clock) (nanos : ℤ) : ℕ :=
  if nanos = 0 then c.lag else (max (c.now - nanos) 0).toNat + c.lag

/-- The directory of a log and the writer that appends to it. -/
structure RotatingLog where
  dir : LogDir
  buf : List UInt8
  lastRotate : ℤ

namespace RotatingLog

variable (cfg : RotateKnobs) (path : String)

/-- What the file holds. -/
def live (s : RotatingLog) : List UInt8 := (s.dir.files path).getD []

/-- `write`: what is complete is appended to the file. -/
def write (ts : List Char) (p : List UInt8) (s : RotatingLog) : RotatingLog :=
  let r := stampLines (encode ts) [] (s.buf ++ p)
  { s with dir := s.dir.set path (some (s.live path ++ r.1)), buf := r.2 }

/-- `maybe_rotate`. -/
def maybeRotate (env : RotateEnv) (clock : Clock) (s : RotatingLog) : RotatingLog × Bool :=
  if path = "" then (s, false)
  else match rotateNow env cfg path (clock.elapsed s.lastRotate) s.dir with
    | (dir, true) => ({ s with dir := dir, lastRotate := clock.later }, true)
    | (dir, false) => ({ s with dir := dir }, false)

/-- The part of `setup_logs` for one file: `rotate_if_large_cfg`, the file opened, and a new
writer. -/
def reopen (env : RotateEnv) (clock : Clock) (s : RotatingLog) : RotatingLog × Bool :=
  match rotateNow env cfg path clock.lag s.dir with
  | (dir, rotated) =>
      ({ dir := dir.set path (some ((dir.files path).getD []))
         buf := []
         lastRotate := clock.later }, rotated)

/-- What happens to a log. -/
inductive Act where
  | write (now : ℕ) (p : List UInt8)
  | check (env : RotateEnv) (clock : Clock)
  | reopen (env : RotateEnv) (clock : Clock)

/-- One act, and whether the log was rotated. -/
def step (s : RotatingLog) : Act → RotatingLog × Bool
  | .write now p => (s.write path (tsPrefix now) p, false)
  | .check env clock => s.maybeRotate cfg path env clock
  | .reopen env clock => s.reopen cfg path env clock

/-- The same without rotation. -/
def plainStep (w : TimestampWriter) : Act → TimestampWriter
  | .write now p => w.write (tsPrefix now) p
  | .check _ _ => w
  | .reopen _ _ => { w with buf := [] }

end RotatingLog

/-! ### Whole lines -/

/-- The bytes end where a line does. -/
def WholeLines (l : List UInt8) : Prop := l = [] ∨ l.getLast? = some lineFeed

theorem WholeLines.append {l m : List UInt8} (hl : WholeLines l) (hm : WholeLines m) :
    WholeLines (l ++ m) := by
  rcases hm with rfl | hm
  · rwa [List.append_nil]
  · exact .inr (by rw [List.getLast?_append, hm]; rfl)

theorem wholeLines_concat (l : List UInt8) : WholeLines (l ++ [lineFeed]) := .inr (by simp)

theorem wholeLines_stampLines (ts l : List UInt8) : WholeLines (stampLines ts [] l).1 := by
  rw [stampLines_eq ts List.not_mem_nil, List.nil_append]
  apply WholeLines.append
  · have hlines : ∀ line ∈ (split lineFeed l).1, WholeLines (ts ++ line) := by
      intro line hline
      obtain ⟨p, rfl, -⟩ := exists_of_mem_split hline
      rw [← List.append_assoc]
      exact wholeLines_concat _
    generalize (split lineFeed l).1 = lines at hlines
    induction lines with
    | nil => exact .inl rfl
    | cons line lines ih =>
        obtain ⟨hline, hlines⟩ := List.forall_mem_cons.mp hlines
        rw [List.flatMap_cons]
        exact hline.append (ih hlines)
  · unfold overflow
    split_ifs
    · exact wholeLines_concat _
    · exact .inl rfl

/-! ### One rotation -/

section Rotation

variable {env : RotateEnv} {cfg : RotateConfig} {path : String} {d : LogDir}
  {gunzip : List UInt8 → Option (List UInt8)} {chunks : List (List UInt8)} {data : List UInt8}

/-- Nothing fails, and what is compressed can be read again. -/
structure Quiet (gunzip : List UInt8 → Option (List UInt8)) (env : RotateEnv) : Prop where
  noFault : ∀ op, env.fault op = none
  roundTrip : ∀ data, gunzip (env.gzip data) = some data

/-- The archives hold the last of the chunks, the newest first. -/
def Archived (gunzip : List UInt8 → Option (List UInt8)) (cfg : RotateConfig) (path : String)
    (d : LogDir) (chunks : List (List UInt8)) : Prop :=
  ∀ i, 1 ≤ i → i ≤ min chunks.length (keepCount cfg) →
    archived gunzip cfg path d i = chunks[chunks.length - i]?

theorem rotateChain_eq_cycle (hlive : d.files path = some data) :
    rotateChain env cfg path d = cycle env cfg path (d.set path (some [])) data := by
  rw [cycle, files_set_self, Option.getD_some, List.nil_append]
  congr 1
  cases d with
  | mk files stderr => simp [LogDir.set, ← hlive]

theorem archived_set_live (live : Option (List UInt8)) (i : ℕ) :
    archived gunzip cfg path (d.set path live) i = archived gunzip cfg path d i := by
  unfold archived
  rw [files_set_of_ne (plainName_ne path), files_set_of_ne (gzName_ne path i)]

theorem Archived.set_live (h : Archived gunzip cfg path d chunks) (live : Option (List UInt8)) :
    Archived gunzip cfg path (d.set path live) chunks := by
  intro i h1 h2
  rw [archived_set_live]
  exact h i h1 h2

/-- **One rotation**: the live file is one more chunk, and is empty. -/
theorem Archived.rotateChain (h : Archived gunzip cfg path d chunks) (hq : Quiet gunzip env)
    (hlive : d.files path = some data) :
    Archived gunzip cfg path (rotateChain env cfg path d) (chunks ++ [data]) ∧
      (LogDir.rotateChain env cfg path d).files path = some [] := by
  rw [rotateChain_eq_cycle hlive]
  have hempty : (d.set path (some [])).files path = some [] := files_set_self ..
  refine ⟨fun i h1 h2 => ?_, live_cycle hq.noFault⟩
  rw [List.length_append, List.length_singleton] at h2 ⊢
  rcases Nat.eq_or_lt_of_le h1 with rfl | h1
  · rw [archived_cycle_one hq.noFault hq.roundTrip hempty]
    simp
  · obtain ⟨i, rfl⟩ : ∃ k, i = k + 1 := ⟨i - 1, by omega⟩
    have hold := h.set_live (some []) i (by omega) (by omega)
    have hlt : chunks.length - i < chunks.length := by omega
    rw [List.getElem?_eq_getElem hlt] at hold
    rw [archived_cycle_succ hq.noFault hq.roundTrip (by omega) (by omega) hold,
      Nat.add_sub_add_right, List.getElem?_append_left hlt, List.getElem?_eq_getElem hlt]

end Rotation

/-! ### Runs -/

section Runs

variable {env : RotateEnv} {cfg : RotateKnobs} {path : String} {d : LogDir} {elapsed : ℕ}
  {gunzip : List UInt8 → Option (List UInt8)} {chunks : List (List UInt8)} {s : RotatingLog}
  {w : TimestampWriter}

theorem rotateNow_cases (env : RotateEnv) (cfg : RotateKnobs) (path : String) (elapsed : ℕ)
    (d : LogDir) : rotateNow env cfg path elapsed d = (d, false) ∨
      ∃ data, d.files path = some data ∧ (cfg.notifEmpty = true → data ≠ []) ∧
        rotateNow env cfg path elapsed d = (rotateChain env cfg.toRotateConfig path d, true) := by
  unfold rotateNow
  cases hlive : d.files path with
  | none => exact .inl rfl
  | some data =>
      simp only
      split_ifs with hempty htrigger
      · exact .inl rfl
      · exact .inl rfl
      · refine .inr ⟨data, rfl, fun hnotif hnil => hempty ?_, rfl⟩
        rw [hnotif, hnil]
        rfl

/-- The chunks rotated out so far, what the directory holds of them, and the log without
rotation. -/
structure Kept (gunzip : List UInt8 → Option (List UInt8)) (cfg : RotateKnobs) (path : String)
    (s : RotatingLog) (w : TimestampWriter) (chunks : List (List UInt8)) : Prop where
  archived : Archived gunzip cfg.toRotateConfig path s.dir chunks
  present : s.dir.files path = some (s.live path)
  content : chunks.flatten ++ s.live path = w.written
  buf : s.buf = w.buf
  wholeChunks : ∀ c ∈ chunks, WholeLines c
  wholeLive : WholeLines (s.live path)
  notEmpty : cfg.notifEmpty = true → ∀ c ∈ chunks, c ≠ []

/-- What a check does to the directory. -/
theorem Kept.rotateNow (h : Kept gunzip cfg path s w chunks) (hq : Quiet gunzip env)
    (elapsed : ℕ) : ∃ chunks',
      chunks'.length =
        chunks.length + ((LogDir.rotateNow env cfg path elapsed s.dir).2.toNat) ∧
      Kept gunzip cfg path { s with dir := (LogDir.rotateNow env cfg path elapsed s.dir).1 } w
        chunks' := by
  obtain he | ⟨data, hdata, hne, he⟩ := rotateNow_cases env cfg path elapsed s.dir
  · rw [he]
    exact ⟨chunks, rfl, h⟩
  · obtain ⟨harch, hempty⟩ := h.archived.rotateChain hq hdata
    obtain rfl : s.live path = data := by rw [RotatingLog.live, hdata, Option.getD_some]
    have hlive : RotatingLog.live path
        { s with dir := LogDir.rotateChain env cfg.toRotateConfig path s.dir } = [] := by
      rw [RotatingLog.live, hempty, Option.getD_some]
    rw [he]
    refine ⟨chunks ++ [s.live path], by simp, harch, ?_, ?_, h.buf, ?_, ?_, ?_⟩
    · rw [hlive, hempty]
    · rw [hlive, List.append_nil, List.flatten_concat]
      exact h.content
    · simpa [or_imp, forall_and] using ⟨h.wholeChunks, h.wholeLive⟩
    · rw [hlive]
      exact .inl rfl
    · intro hnotif
      simpa [or_imp, forall_and] using ⟨h.notEmpty hnotif, hne hnotif⟩

namespace RotatingLog

/-- Nothing fails in the act. -/
def Succeeds (gunzip : List UInt8 → Option (List UInt8)) : Act → Prop
  | .write _ _ => True
  | .check env _ => Quiet gunzip env
  | .reopen env _ => Quiet gunzip env

end RotatingLog

theorem Kept.write (h : Kept gunzip cfg path s w chunks) (ts : List Char) (p : List UInt8) :
    Kept gunzip cfg path (s.write path ts p) (w.write ts p) chunks := by
  have hlive : (s.write path ts p).live path =
      s.live path ++ (stampLines (encode ts) [] (s.buf ++ p)).1 := by
    rw [RotatingLog.live, RotatingLog.write, files_set_self, Option.getD_some]
  refine ⟨h.archived.set_live _, ?_, ?_, ?_, h.wholeChunks, ?_, h.notEmpty⟩
  · rw [hlive, RotatingLog.write, files_set_self]
  · rw [hlive, TimestampWriter.write, ← List.append_assoc, h.content, h.buf]
  · rw [RotatingLog.write, TimestampWriter.write, h.buf]
  · rw [hlive]
    exact h.wholeLive.append (wholeLines_stampLines _ _)

/-- **One act.** -/
theorem Kept.step (h : Kept gunzip cfg path s w chunks) {a : RotatingLog.Act}
    (ha : RotatingLog.Succeeds gunzip a) : ∃ chunks',
      chunks'.length = chunks.length + (s.step cfg path a).2.toNat ∧
      Kept gunzip cfg path (s.step cfg path a).1 (RotatingLog.plainStep w a) chunks' := by
  cases a with
  | write now p => exact ⟨chunks, rfl, h.write _ p⟩
  | check env clock =>
      obtain ⟨chunks', hlen, hkept⟩ := h.rotateNow ha (clock.elapsed s.lastRotate)
      rw [RotatingLog.step, RotatingLog.maybeRotate]
      split_ifs with hpath
      · exact ⟨chunks, rfl, h⟩
      · cases he : LogDir.rotateNow env cfg path (clock.elapsed s.lastRotate) s.dir with
        | mk dir rotated =>
            rw [he] at hlen hkept
            obtain ⟨h1, h2, h3, h4, h5, h6, h7⟩ := hkept
            cases rotated with
            | true => exact ⟨chunks', hlen, h1, h2, h3, h4, h5, h6, h7⟩
            | false => exact ⟨chunks', hlen, h1, h2, h3, h4, h5, h6, h7⟩
  | reopen env clock =>
      obtain ⟨chunks', hlen, hkept⟩ := h.rotateNow ha clock.lag
      rw [RotatingLog.step, RotatingLog.reopen]
      cases he : LogDir.rotateNow env cfg path clock.lag s.dir with
      | mk dir rotated =>
          rw [he] at hlen hkept
          obtain ⟨h1, h2, h3, -, h5, h6, h7⟩ := hkept
          have hset : (dir.set path (some ((dir.files path).getD []))).files path =
              some ((dir.files path).getD []) := files_set_self ..
          have hlive : RotatingLog.live path ⟨dir.set path (some ((dir.files path).getD [])), [],
              clock.later⟩ = (dir.files path).getD [] := by
            rw [RotatingLog.live, hset, Option.getD_some]
          exact ⟨chunks', hlen, h1.set_live _, by rw [hlive]; exact hset, by rw [hlive]; exact h3,
            rfl, h5, by rw [hlive]; exact h6, h7⟩

/-- What can be read of the log: the first `n` archives, the oldest first, and the file. -/
def recovered (gunzip : List UInt8 → Option (List UInt8)) (cfg : RotateConfig) (path : String)
    (d : LogDir) (n : ℕ) : List UInt8 :=
  ((List.range n).reverse.flatMap fun i => (archived gunzip cfg path d (i + 1)).getD []) ++
    (d.files path).getD []

theorem Archived.flatMap (h : Archived gunzip cfg.toRotateConfig path d chunks) {n : ℕ}
    (hn : n ≤ min chunks.length (keepCount cfg.toRotateConfig)) :
    ((List.range n).reverse.flatMap fun i =>
      (archived gunzip cfg.toRotateConfig path d (i + 1)).getD []) =
      (chunks.drop (chunks.length - n)).flatten := by
  induction n with
  | zero => simp
  | succ n ih =>
      have hlt : chunks.length - (n + 1) < chunks.length := by omega
      have hdrop : chunks.drop (chunks.length - (n + 1)) =
          chunks[chunks.length - (n + 1)] :: chunks.drop (chunks.length - n) := by
        rw [List.drop_eq_getElem_cons hlt]
        congr 2
        omega
      rw [List.range_succ, List.reverse_concat, List.flatMap_cons, ih (by omega),
        h (n + 1) (by omega) hn, List.getElem?_eq_getElem hlt, Option.getD_some, hdrop,
        List.flatten_cons]

/-- **A run.** -/
theorem Kept.run {acts : List RotatingLog.Act}
    (hacts : ∀ a ∈ acts, RotatingLog.Succeeds gunzip a) (h : Kept gunzip cfg path s w chunks) :
    ∃ chunks', chunks'.length =
        chunks.length + (outputs (RotatingLog.step cfg path) s acts).count true ∧
      Kept gunzip cfg path (final (RotatingLog.step cfg path) s acts)
        (acts.foldl RotatingLog.plainStep w) chunks' := by
  induction acts generalizing s w chunks with
  | nil => exact ⟨chunks, rfl, h⟩
  | cons a acts ih =>
      obtain ⟨ha, hacts⟩ := List.forall_mem_cons.mp hacts
      obtain ⟨mid, hmid, hkept⟩ := h.step ha
      obtain ⟨chunks', hlen, hkept'⟩ := ih hacts hkept
      refine ⟨chunks', ?_, hkept'⟩
      rw [hlen, hmid, outputs, List.count_cons]
      cases (s.step cfg path a).2 with
      | false => simp
      | true =>
          simp only [Bool.toNat_true, beq_self_eq_true, if_true]
          omega

theorem Kept.recovered (h : Kept gunzip cfg path s w chunks) :
    Logs.recovered gunzip cfg.toRotateConfig path s.dir
        (min chunks.length (keepCount cfg.toRotateConfig)) =
      (chunks.drop (chunks.length - keepCount cfg.toRotateConfig)).flatten ++ s.live path := by
  rw [Logs.recovered, h.archived.flatMap le_rfl]
  congr 3
  omega

/-- **Rotation keeps the log.**  After any run of writes, checks and reopenings in which no file
operation fails, on a file of whole lines, the files of the log are whole lines, each archive is one
of the chunks that were rotated out, and read from the oldest archive to the live file they are the
end of what the same writes make without rotation: all of it as long as the log has not been rotated
more often than `keep` says. -/
theorem rotation_keeps_log (gunzip : List UInt8 → Option (List UInt8)) (cfg : RotateKnobs)
    (path : String) (dir : LogDir) (old : List UInt8) (hold : dir.files path = some old)
    (hwhole : WholeLines old) (nanos : ℤ) (acts : List RotatingLog.Act)
    (hacts : ∀ a ∈ acts, RotatingLog.Succeeds gunzip a) :
    let s := final (RotatingLog.step cfg path) ⟨dir, [], nanos⟩ acts
    let w := acts.foldl RotatingLog.plainStep ⟨[], old⟩
    let n := (outputs (RotatingLog.step cfg path) ⟨dir, [], nanos⟩ acts).count true
    s.buf = w.buf ∧
    (∃ chunks : List (List UInt8), chunks.length = n ∧ chunks.flatten ++ s.live path = w.written ∧
      (∀ c ∈ chunks, WholeLines c ∧ (cfg.notifEmpty = true → c ≠ [])) ∧ WholeLines (s.live path) ∧
      (∀ i, 1 ≤ i → i ≤ min n (keepCount cfg.toRotateConfig) → ∃ c, chunks[n - i]? = some c ∧
        archived gunzip cfg.toRotateConfig path s.dir i = some c ∧ WholeLines c) ∧
      recovered gunzip cfg.toRotateConfig path s.dir (min n (keepCount cfg.toRotateConfig)) =
        (chunks.drop (n - keepCount cfg.toRotateConfig)).flatten ++ s.live path) ∧
    (n ≤ keepCount cfg.toRotateConfig →
      recovered gunzip cfg.toRotateConfig path s.dir n = w.written) := by
  intro s w n
  have hlive : RotatingLog.live path ⟨dir, [], nanos⟩ = old := by
    rw [RotatingLog.live, hold, Option.getD_some]
  have hstart : Kept gunzip cfg path ⟨dir, [], nanos⟩ ⟨[], old⟩ [] :=
    { archived := by
        intro i h1 h2
        rw [List.length_nil, Nat.zero_min] at h2
        omega
      present := by rw [hlive]; exact hold
      content := hlive
      buf := rfl
      wholeChunks := List.forall_mem_nil _
      wholeLive := by rw [hlive]; exact hwhole
      notEmpty := fun _ => List.forall_mem_nil _ }
  obtain ⟨chunks, hlen, hkept⟩ := hstart.run hacts
  replace hlen : chunks.length = n := hlen.trans (Nat.zero_add n)
  have hrec := hkept.recovered
  rw [hlen] at hrec
  have harchived : ∀ i, 1 ≤ i → i ≤ min n (keepCount cfg.toRotateConfig) →
      ∃ c, chunks[n - i]? = some c ∧
        archived gunzip cfg.toRotateConfig path s.dir i = some c ∧ WholeLines c := by
    intro i h1 h2
    have hlt : n - i < chunks.length := by omega
    have hat := hkept.archived i h1 (by omega)
    rw [hlen, List.getElem?_eq_getElem hlt] at hat
    exact ⟨chunks[n - i], List.getElem?_eq_getElem hlt, hat,
      hkept.wholeChunks _ (List.getElem_mem hlt)⟩
  refine ⟨hkept.buf, ⟨chunks, hlen, hkept.content, fun c hc => ⟨hkept.wholeChunks c hc,
    fun hnotif => hkept.notEmpty hnotif c hc⟩, hkept.wholeLive, harchived, hrec⟩, fun hn => ?_⟩
  rw [Nat.min_eq_left hn, Nat.sub_eq_zero_of_le hn, List.drop_zero] at hrec
  exact hrec.trans hkept.content

/-- Two lines, the file rotated after each. -/
theorem rotation_keeps_log_two :
    let cfg : RotateKnobs := { keep := 2, maxBytes := 1 }
    let acts : List RotatingLog.Act :=
      [.write 0 [0x61, 0x0a], .check LogDir.quietEnv ⟨1, 0, 2⟩, .write 0 [0x62, 0x0a, 0x63],
        .reopen LogDir.quietEnv ⟨3, 0, 4⟩, .write 0 [0x64, 0x0a]]
    let s := final (RotatingLog.step cfg "stdout.log") ⟨LogDir.emptyLog, [], 0⟩ acts
    let w := acts.foldl RotatingLog.plainStep ⟨[], []⟩
    (outputs (RotatingLog.step cfg "stdout.log") ⟨LogDir.emptyLog, [], 0⟩ acts).count true = 2 ∧
      recovered unmarkGzip cfg.toRotateConfig "stdout.log" s.dir 2 = w.written := by
  intro cfg acts s w
  have hacts : ∀ a ∈ acts, RotatingLog.Succeeds unmarkGzip a := by
    have hq : Quiet unmarkGzip LogDir.quietEnv := ⟨fun _ => rfl, fun _ => rfl⟩
    simp [acts, RotatingLog.Succeeds, hq]
  have hcount : (outputs (RotatingLog.step cfg "stdout.log") ⟨LogDir.emptyLog, [], 0⟩
      acts).count true = 2 := by decide +kernel
  obtain ⟨-, -, hall⟩ := rotation_keeps_log unmarkGzip cfg "stdout.log" LogDir.emptyLog []
    (by decide) (.inl rfl) 0 acts hacts
  rw [hcount] at hall
  exact ⟨hcount, hall (by decide)⟩

end Runs

end Unitpm.Logs
