import Unitpm.Archives

/-! # Rotation after rotation

A log that is filled and rotated again and again (`rotate_chain` of `daemon::manager::rotate`).

`rotated_chunks`: while nothing fails, archive `i` is the chunk that was rotated out `i` rotations
ago, in either mode.  `bounded_iff_along`: whatever fails, no archive has an index beyond `keep`,
unless `keep` is one and the plain copy of the rotation before is compressed: its place is `.2.gz`
whatever `keep` is. -/

namespace Unitpm.Logs

open Run

namespace LogDir

/-! ### The chunks -/

section Chunks

variable {env : RotateEnv} {cfg : RotateConfig} {path : String} {d : LogDir}
  {gunzip : List UInt8 → Option (List UInt8)} {c chunk : List UInt8}

/-- What archive `i` holds: in the delayed mode the first one is plain. -/
def archived (gunzip : List UInt8 → Option (List UInt8)) (cfg : RotateConfig) (path : String)
    (d : LogDir) (i : ℕ) : Option (List UInt8) :=
  if cfg.delayCompress = true ∧ i = 1 then d.files (plainName path)
  else (d.files (gzName path i)).bind gunzip

/-- A chunk is written to the live log, and the log is rotated. -/
def cycle (env : RotateEnv) (cfg : RotateConfig) (path : String) (d : LogDir)
    (chunk : List UInt8) : LogDir :=
  rotateChain env cfg path (d.set path (some ((d.files path).getD [] ++ chunk)))

theorem sent_some {encode : List UInt8 → List UInt8} {op : RotateOp} (h : env.fault op = none) :
    sent env encode op (some c) = some (encode c) := by
  rw [sent, Option.bind_some, h]

theorem live_cycle (hio : ∀ op, env.fault op = none) :
    (cycle env cfg path d chunk).files path = some [] := by
  have hreach : Reaches env cfg path
      (d.set path (some ((d.files path).getD [] ++ chunk))) := by
    refine ⟨by simp, ?_⟩
    split
    · exact ⟨fun _ => hio _, hio _⟩
    · exact hio _
  rw [cycle, live_rotateChain, if_pos ⟨hreach, hio _⟩]

theorem archived_cycle_one (hio : ∀ op, env.fault op = none)
    (hgz : ∀ data, gunzip (env.gzip data) = some data) (hlive : d.files path = some []) :
    archived gunzip cfg path (cycle env cfg path d chunk) 1 = some chunk := by
  rw [cycle, hlive, Option.getD_some, List.nil_append, archived]
  cases hmode : cfg.delayCompress with
  | true =>
      have hmoved : true = true ∧ PlainMoved env path (d.set path (some chunk)) :=
        ⟨rfl, fun _ => hio _⟩
      rw [if_pos ⟨rfl, rfl⟩, plain_rotateChain, hmode, if_pos hmoved, files_set_self,
        sent_some (hio _)]
      rfl
  | false =>
      have hcompressed : compressed env cfg path (d.set path (some chunk)) =
          some (env.gzip chunk) := by
        rw [compressed, source, hmode, if_neg (by simp), files_set_self, sent_some (hio _)]
      rw [if_neg (by simp), gz_rotateChain, firstIndex_immediate cfg hmode, if_pos rfl,
        hcompressed, Option.some_or, Option.bind_some, hgz]

/-- Every other archive moves up by one. -/
theorem archived_cycle_succ (hio : ∀ op, env.fault op = none)
    (hgz : ∀ data, gunzip (env.gzip data) = some data) {i : ℕ} (hi : 1 ≤ i)
    (hkeep : i < keepCount cfg) (h : archived gunzip cfg path d i = some c) :
    archived gunzip cfg path (cycle env cfg path d chunk) (i + 1) = some c := by
  have hplain : ∀ live, (d.set path live).files (plainName path) = d.files (plainName path) :=
    fun live => files_set_of_ne (plainName_ne path) live
  have hfile : ∀ live, (d.set path live).files (gzName path i) = d.files (gzName path i) :=
    fun live => files_set_of_ne (gzName_ne path i) live
  rw [cycle]
  generalize hd : d.set path (some ((d.files path).getD [] ++ chunk)) = e
  have hne : ¬ (cfg.delayCompress = true ∧ i + 1 = 1) := by omega
  rw [archived, if_neg hne, gz_rotateChain]
  unfold archived at h
  by_cases hfirst : cfg.delayCompress = true ∧ i = 1
  · -- the plain copy is compressed into `.2.gz`
    obtain ⟨hmode, rfl⟩ := hfirst
    have hcompressed : compressed env cfg path e = some (env.gzip c) := by
      rw [if_pos ⟨hmode, rfl⟩] at h
      rw [compressed, source, if_pos hmode, ← hd, hplain, h, sent_some (hio _)]
    rw [if_pos (firstIndex_delayed cfg hmode).symm, hcompressed, Option.some_or, Option.bind_some,
      hgz]
  · rw [if_neg hfirst] at h
    have hle : firstIndex cfg ≤ i := by
      unfold firstIndex
      split_ifs with hmode
      · have : i ≠ 1 := fun hi => hfirst ⟨hmode, hi⟩
        omega
      · exact hi
    have hsome : (d.files (gzName path i)).isSome = true := by
      cases hg : d.files (gzName path i) with
      | none =>
          rw [hg] at h
          cases h
      | some data => rfl
    have hmoves : Moves env cfg path e i := by
      refine ⟨hle, hkeep, ?_, hio _⟩
      rw [← hd, hfile]
      exact hsome
    rw [if_neg (by omega), Option.none_or, movedUp, Nat.add_sub_cancel, if_pos hmoves, ← hd, hfile]
    exact h

/-- **The archives are the last chunks.**  After any number of cycles in which nothing fails,
archive `i` holds the chunk that was rotated out `i` rotations ago, for every `i` up to `keep`, and
the live log is empty. -/
theorem rotated_chunks (hio : ∀ op, env.fault op = none)
    (hgz : ∀ data, gunzip (env.gzip data) = some data) (hlive : d.files path = some [])
    (chunks : List (List UInt8)) :
    (chunks.foldl (cycle env cfg path) d).files path = some [] ∧
      ∀ i, 1 ≤ i → i ≤ min chunks.length (keepCount cfg) →
        ∃ chunk, chunks[chunks.length - i]? = some chunk ∧
          archived gunzip cfg path (chunks.foldl (cycle env cfg path) d) i = some chunk := by
  induction chunks using List.reverseRecOn with
  | nil => exact ⟨hlive, fun i h1 h2 => by simp at h2; omega⟩
  | append_singleton chunks chunk ih =>
      obtain ⟨ihlive, iharch⟩ := ih
      rw [List.foldl_concat]
      refine ⟨live_cycle hio, fun i h1 h2 => ?_⟩
      rw [List.length_append, List.length_singleton] at h2 ⊢
      rcases Nat.eq_or_lt_of_le h1 with rfl | h1
      · exact ⟨chunk, by simp, archived_cycle_one hio hgz ihlive⟩
      · obtain ⟨i, rfl⟩ : ∃ k, i = k + 1 := ⟨i - 1, by omega⟩
        obtain ⟨old, hold, harch⟩ := iharch i (by omega) (by omega)
        refine ⟨old, ?_, archived_cycle_succ hio hgz (by omega) (by omega) harch⟩
        rw [List.getElem?_append_left (by omega), ← hold]
        congr 1
        omega

end Chunks

/-- An empty log, and no archive. -/
def emptyLog : LogDir where
  files p := if p = "stdout.log" then some [] else none

/-- A call in which nothing fails. -/
def quietEnv : RotateEnv := markedEnv fun _ => none

/-- Three chunks, of which two are kept. -/
theorem rotated_chunks_three :
    ([[0x61], [0x62], [0x63]].foldl (cycle quietEnv { keep := 2 } "stdout.log")
        emptyLog).files "stdout.log" = some [] ∧
      ∀ i, 1 ≤ i → i ≤ min [[0x61], [0x62], [0x63]].length (keepCount { keep := 2 }) →
        ∃ chunk, [[0x61], [0x62], [0x63]][[[0x61], [0x62], [0x63]].length - i]? = some chunk ∧
          archived unmarkGzip { keep := 2 } "stdout.log"
            ([[0x61], [0x62], [0x63]].foldl (cycle quietEnv { keep := 2 } "stdout.log")
              emptyLog) i = some chunk :=
  rotated_chunks (fun _ => rfl) (fun _ => rfl) (by decide) _

/-! ### The bound -/

section Bound

variable (cfg : RotateConfig) (path : String)

/-- The live log is anything, also missing, and is rotated. -/
def rotation (d : LogDir) (a : RotateEnv × Option (List UInt8)) : LogDir :=
  rotateChain a.1 cfg path (d.set path a.2)

def NoArchives (d : LogDir) : Prop :=
  ∀ i, 1 ≤ i → d.files (gzName path i) = none ∧ d.files (plainAt path i) = none

/-- No archive, compressed or not, has an index beyond `keep`. -/
def Bounded (d : LogDir) : Prop :=
  ∀ i, keepCount cfg < i → d.files (gzName path i) = none ∧ d.files (plainAt path i) = none

/-- The rotation has no plain copy to put into `.2.gz`, or it may put it there, or it fails to
before anything is written. -/
def KeepsBound (d : LogDir) (a : RotateEnv × Option (List UInt8)) : Prop :=
  cfg.delayCompress = false ∨ 2 ≤ keepCount cfg ∨ d.files (plainName path) = none ∨
    ∃ f, a.1.fault .compressPlain = some f ∧ f.leaves = none

variable {cfg path} {d : LogDir}

theorem NoArchives.bounded (h : NoArchives path d) : Bounded cfg path d :=
  fun i hi => h i (by omega)

theorem movedUp_of_lt {env : RotateEnv} {i : ℕ} (hi : keepCount cfg < i) :
    movedUp env cfg path d i = d.files (gzName path i) := by
  have h1 : ¬ Moves env cfg path d (i - 1) := by
    rintro ⟨-, hlt, -⟩
    omega
  have h2 : ¬ (Moves env cfg path d i ∨ Dropped env cfg i) := by
    rintro (⟨-, hlt, -⟩ | ⟨heq, -⟩) <;> omega
  rw [movedUp, if_neg h1, if_neg h2]

theorem plainAt_rotation {i : ℕ} (hi : keepCount cfg < i) (a : RotateEnv × Option (List UInt8)) :
    (rotation cfg path d a).files (plainAt path i) = d.files (plainAt path i) := by
  have hkeep := keepCount_pos cfg
  have hplain : plainAt path i ≠ plainName path := by
    rw [plainName_eq]
    intro h
    have := plainAt_injective path h
    omega
  rw [rotation,
    files_rotateChain_of_ne _ _ _ _ (plainAt_ne path i) hplain (plainAt_ne_gzName path i),
    files_set_of_ne (plainAt_ne path i)]

theorem gz_rotation (h : Bounded cfg path d) {i : ℕ} (hi : keepCount cfg < i)
    (a : RotateEnv × Option (List UInt8)) :
    (rotation cfg path d a).files (gzName path i) =
      if i = firstIndex cfg then compressed a.1 cfg path (d.set path a.2) else none := by
  rw [rotation, gz_rotateChain, movedUp_of_lt hi, files_set_of_ne (gzName_ne path i), (h i hi).1,
    Option.or_none]

theorem compressed_rotation_eq_none_iff (hmode : cfg.delayCompress = true)
    (a : RotateEnv × Option (List UInt8)) :
    compressed a.1 cfg path (d.set path a.2) = none ↔
      d.files (plainName path) = none ∨
        ∃ f, a.1.fault .compressPlain = some f ∧ f.leaves = none := by
  rw [compressed, source, if_pos hmode, compressOp, if_pos hmode,
    files_set_of_ne (plainName_ne path), sent_eq_none_iff]

/-- **One rotation** keeps the bound exactly if it need not write beyond it. -/
theorem bounded_rotation_iff (h : Bounded cfg path d) (a : RotateEnv × Option (List UInt8)) :
    Bounded cfg path (rotation cfg path d a) ↔ KeepsBound cfg path d a := by
  have hkeep := keepCount_pos cfg
  constructor
  · intro hb
    by_contra hnot
    simp only [KeepsBound, not_or, Bool.not_eq_false] at hnot
    obtain ⟨hmode, hone, hnone, hfault⟩ := hnot
    have h2 := (hb 2 (by omega)).1
    rw [gz_rotation h (by omega), firstIndex_delayed cfg hmode, if_pos rfl,
      compressed_rotation_eq_none_iff hmode] at h2
    exact h2.elim hnone hfault
  · intro hk i hi
    refine ⟨?_, by rw [plainAt_rotation hi, (h i hi).2]⟩
    rw [gz_rotation h hi]
    split_ifs with hfirst
    · -- the first archive lies beyond `keep` only where `keep` is one and the mode is delayed
      have hmode : cfg.delayCompress = true := by
        by_contra hmode
        rw [firstIndex_immediate cfg (by simpa using hmode)] at hfirst
        omega
      have hfirst' := firstIndex_delayed cfg hmode
      rw [compressed_rotation_eq_none_iff hmode]
      rcases hk with hk | hk | hk
      · rw [hmode] at hk
        cases hk
      · omega
      · exact hk
    · rfl

/-- **No archive beyond `keep`**, after any number of rotations, exactly if no rotation has to write
one. -/
theorem bounded_iff_along (hd : NoArchives path d) (l : List (RotateEnv × Option (List UInt8))) :
    (∀ m, m <+: l → Bounded cfg path (m.foldl (rotation cfg path) d)) ↔
      Along (rotation cfg path) (KeepsBound cfg path) d l := by
  apply forall_prefix_iff_along (fun _ => True) (Bounded cfg path)
  · exact fun _ _ _ => trivial
  · exact fun d a _ h => bounded_rotation_iff h a
  · trivial
  · exact hd.bounded

theorem noArchives_emptyLog : NoArchives "stdout.log" emptyLog := by
  intro i _
  simp [emptyLog, gzName_ne, plainAt_ne]

/-- Three rotations of which two are kept. -/
theorem bounded_keepTwo :
    NoArchives "stdout.log" emptyLog ∧
      ∀ m, m <+: [(quietEnv, some [0x61]), (quietEnv, some [0x62]), (quietEnv, some [0x63])] →
        Bounded { keep := 2 } "stdout.log"
          (m.foldl (rotation { keep := 2 } "stdout.log") emptyLog) :=
  ⟨noArchives_emptyLog, (bounded_iff_along noArchives_emptyLog _).mpr
    (along_of_forall _ fun _ _ _ => .inr (.inl (by decide)))⟩

/-- With `keep = 1` the second rotation writes `.2.gz`. -/
theorem keepOne_exceeds :
    let d := [(quietEnv, some [0x61]), (quietEnv, some [0x62])].foldl
      (rotation { keep := 1 } "stdout.log") emptyLog
    NoArchives "stdout.log" emptyLog ∧ d.files "stdout.log.2.gz" = some [0x1f, 0x8b, 0x61] ∧
      ¬ Bounded { keep := 1 } "stdout.log" d := by
  intro d
  have h2 : d.files "stdout.log.2.gz" = some [0x1f, 0x8b, 0x61] := by decide +kernel
  refine ⟨noArchives_emptyLog, h2, fun hb => ?_⟩
  have hnone : d.files (gzName "stdout.log" 2) = none := (hb 2 (by decide)).1
  have hname : gzName "stdout.log" 2 = "stdout.log.2.gz" := by decide +kernel
  rw [hname, h2] at hnone
  cases hnone

end Bound

end LogDir

end Unitpm.Logs
