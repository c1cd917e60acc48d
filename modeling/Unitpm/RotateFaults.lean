import Unitpm.Archives

/-! # Rotations in which something fails

What a call of `rotate_chain` keeps if its operations fail one by one.  A removal, a copy or a
compression that fails ends the call before anything is lost; a rename that fails does not, and the
archive it leaves behind may be written over by the next rename, or by the compression.

`Spare` says on the state before the call which chunks are still stored after it
(`stored_rotateChain_iff`).  `keepsChunks_iff` is when none is lost. -/

namespace Unitpm.Logs

namespace LogDir

section Faults

variable (env : RotateEnv) (cfg : RotateConfig) (gunzip : List UInt8 → Option (List UInt8))
  (path : String) (d : LogDir)

/-! ### Chunks -/

/-- The chunk in a compressed archive. -/
def chunkAt (i : ℕ) : Option (List UInt8) := (d.files (gzName path i)).bind gunzip

/-- A chunk is stored in full in some file of the log. -/
def Stored (c : List UInt8) : Prop :=
  d.files path = some c ∨ d.files (plainName path) = some c ∨ ∃ i, chunkAt gunzip path d i = some c

/-- A chunk that a rotation has to keep. -/
def Guarded (c : List UInt8) : Prop :=
  d.files path = some c ∨ d.files (plainName path) = some c ∨
    ∃ i < keepCount cfg, chunkAt gunzip path d i = some c

/-- The compression writes to its destination, all of the data or a part of it. -/
def Writes : Prop :=
  (source cfg path d).isSome = true ∧
    ∀ f, env.fault (compressOp cfg) = some f → f.leaves.isSome = true

/-- Another archive comes to the place `i`. -/
def Filled (i : ℕ) : Prop :=
  Moves env cfg path d (i - 1) ∨ (i = firstIndex cfg ∧ Writes env cfg path d)

/-- Archive `i` does not move, and another one comes to its place. -/
def Overwritten (i : ℕ) : Prop := ¬ Moves env cfg path d i ∧ Filled env cfg path d i

/-- A copy of a chunk that the rotation leaves: in the live log or the plain copy, in an archive
that moves, in an archive that stays and is not written over, or in what is written by an operation
that fails in the middle.  The emptied log holds the empty chunk. -/
inductive Spare : List UInt8 → Prop where
  | live {c} (h : d.files path = some c) : Spare c
  | plain {c} (h : d.files (plainName path) = some c) : Spare c
  | moved {c i} (hm : Moves env cfg path d i) (h : chunkAt gunzip path d i = some c) : Spare c
  | left {c i} (hd : ¬ Dropped env cfg i) (hf : ¬ Filled env cfg path d i)
      (h : chunkAt gunzip path d i = some c) : Spare c
  | partArchive {c f} (hs : (source cfg path d).isSome = true)
      (hf : env.fault (compressOp cfg) = some f) (h : f.leaves.bind gunzip = some c) : Spare c
  | partCopy {c f} (hm : cfg.delayCompress = true ∧ PlainMoved env path d)
      (hs : (d.files path).isSome = true) (hf : env.fault .copyLive = some f)
      (h : f.leaves = some c) : Spare c
  | emptied (hr : Reaches env cfg path d) (hf : env.fault .truncate = none) : Spare []

variable {env cfg gunzip path d}

/-! ### What is written -/

theorem compressed_isSome_iff :
    (compressed env cfg path d).isSome = true ↔ Writes env cfg path d := by
  unfold compressed sent Writes
  cases source cfg path d with
  | none => simp
  | some y => cases hf : env.fault (compressOp cfg) <;> simp

theorem spare_of_source {c : List UInt8} (h : source cfg path d = some c) :
    Spare env cfg gunzip path d c := by
  unfold source at h
  split_ifs at h
  · exact .plain h
  · exact .live h

theorem stored_of_compressed {x c : List UInt8} (hx : compressed env cfg path d = some x)
    (h : gunzip x = some c) : Stored gunzip path (rotateChain env cfg path d) c := by
  refine .inr (.inr ⟨firstIndex cfg, ?_⟩)
  rw [chunkAt, gz_rotateChain, if_pos rfl, hx, Option.some_or, Option.bind_some, h]

theorem stored_of_moves {c : List UInt8} {i : ℕ} (hm : Moves env cfg path d i)
    (h : chunkAt gunzip path d i = some c) : Stored gunzip path (rotateChain env cfg path d) c := by
  have hne : i + 1 ≠ firstIndex cfg := by
    have := hm.1
    omega
  refine .inr (.inr ⟨i + 1, ?_⟩)
  rw [chunkAt, gz_rotateChain, if_neg hne, Option.none_or, movedUp, Nat.add_sub_cancel, if_pos hm]
  exact h

/-! ### What is stored afterwards -/

section Kept

variable (hgz : ∀ data, gunzip (env.gzip data) = some data) {c : List UInt8}
include hgz

theorem Stored.spare (h : Stored gunzip path (rotateChain env cfg path d) c) :
    Spare env cfg gunzip path d c := by
  rcases h with h | h | ⟨j, h⟩
  · rw [live_rotateChain] at h
    split_ifs at h with hr
    · obtain rfl := Option.some.inj h
      exact .emptied hr.1 hr.2
    · exact .live h
  · rw [plain_rotateChain] at h
    split_ifs at h with hm hremove
    · rw [Option.or_none, sent_eq_some_iff] at h
      rcases h with ⟨-, y, hy, rfl⟩ | ⟨f, hf, hs, hl⟩
      · exact .live hy
      · exact .partCopy hm hs hf hl
    · rcases Option.or_eq_some_iff.mp h with h | ⟨-, h⟩
      · rw [sent_eq_some_iff] at h
        rcases h with ⟨-, y, hy, rfl⟩ | ⟨f, hf, hs, hl⟩
        · exact .live hy
        · exact .partCopy hm hs hf hl
      · exact .plain h
    · exact .plain h
  · rw [chunkAt, gz_rotateChain] at h
    cases hw : (if j = firstIndex cfg then compressed env cfg path d else none) with
    | some x =>
        rw [hw, Option.some_or, Option.bind_some] at h
        split_ifs at hw
        rw [compressed, sent_eq_some_iff] at hw
        rcases hw with ⟨-, y, hy, rfl⟩ | ⟨f, hf, hs, hl⟩
        · rw [hgz] at h
          obtain rfl := Option.some.inj h
          exact spare_of_source hy
        · refine .partArchive hs hf ?_
          rw [hl, Option.bind_some, h]
    | none =>
        rw [hw, Option.none_or, movedUp] at h
        split_ifs at h with hmove hgone
        · exact .moved hmove h
        · cases h
        · rw [not_or] at hgone
          refine .left hgone.2 ?_ h
          rintro (hfill | ⟨rfl, hwrites⟩)
          · exact hmove hfill
          · rw [if_pos rfl] at hw
            have := compressed_isSome_iff.mpr hwrites
            rw [hw] at this
            cases this

theorem Spare.stored (h : Spare env cfg gunzip path d c) :
    Stored gunzip path (rotateChain env cfg path d) c := by
  have hcompressed : ∀ {y}, source cfg path d = some y → env.fault (compressOp cfg) = none →
      compressed env cfg path d = some (env.gzip y) :=
    fun hy hf => sent_eq_some_iff.mpr (.inl ⟨hf, _, hy, rfl⟩)
  cases h with
  | live h =>
      by_cases hr : Reaches env cfg path d ∧ env.fault .truncate = none
      · -- the log is emptied, and its chunk is in the copy
        obtain ⟨⟨-, hsteps⟩, -⟩ := hr
        split_ifs at hsteps with hmode
        · refine .inr (.inl ?_)
          have hsent : sent env id .copyLive (d.files path) = some c :=
            sent_eq_some_iff.mpr (.inl ⟨hsteps.2, c, h, rfl⟩)
          rw [plain_rotateChain, if_pos ⟨hmode, hsteps.1⟩, hsent, Option.some_or]
        · have hsource : source cfg path d = some c := by rw [source, if_neg hmode, h]
          have hop : env.fault (compressOp cfg) = none := by rw [compressOp, if_neg hmode, hsteps]
          exact stored_of_compressed (hcompressed hsource hop) (hgz c)
      · refine .inl ?_
        rw [live_rotateChain, if_neg hr, h]
  | plain h =>
      by_cases hm : cfg.delayCompress = true ∧ PlainMoved env path d
      · have hsource : source cfg path d = some c := by rw [source, if_pos hm.1, h]
        have hop : env.fault (compressOp cfg) = none := by
          rw [compressOp, if_pos hm.1]
          exact hm.2 (by rw [h]; rfl)
        exact stored_of_compressed (hcompressed hsource hop) (hgz c)
      · refine .inr (.inl ?_)
        rw [plain_rotateChain, if_neg hm, h]
  | moved hm h => exact stored_of_moves hm h
  | @left _ i hd hf h =>
      rw [Filled, not_or, not_and] at hf
      have hnone : (if i = firstIndex cfg then compressed env cfg path d else none) = none := by
        split_ifs with hi
        · have := mt compressed_isSome_iff.mp (hf.2 hi)
          simpa using this
        · rfl
      by_cases hm : Moves env cfg path d i
      · exact stored_of_moves hm h
      · refine .inr (.inr ⟨i, ?_⟩)
        rw [chunkAt, gz_rotateChain, hnone, Option.none_or, movedUp, if_neg hf.1,
          if_neg (not_or.mpr ⟨hm, hd⟩)]
        exact h
  | @partArchive _ f hs hf h =>
      obtain ⟨x, hl, hx⟩ := Option.bind_eq_some_iff.mp h
      exact stored_of_compressed (sent_eq_some_iff.mpr (.inr ⟨f, hf, hs, hl⟩)) hx
  | @partCopy _ f hm hs hf h =>
      refine .inr (.inl ?_)
      have hsent : sent env id .copyLive (d.files path) = some c :=
        sent_eq_some_iff.mpr (.inr ⟨f, hf, hs, h⟩)
      rw [plain_rotateChain, if_pos hm, hsent, Option.some_or]
  | emptied hr hf =>
      refine .inl ?_
      rw [live_rotateChain, if_pos ⟨hr, hf⟩]

/-- **What is stored after a rotation**, whatever fails. -/
theorem stored_rotateChain_iff :
    Stored gunzip path (rotateChain env cfg path d) c ↔ Spare env cfg gunzip path d c :=
  ⟨Stored.spare hgz, Spare.stored hgz⟩

/-- **A rotation loses no chunk** of the live log, the plain copy or an archive below `keep`,
whatever fails, exactly if every such archive that is written over in its old place has a copy. -/
theorem keepsChunks_iff :
    (∀ c, Guarded cfg gunzip path d c → Stored gunzip path (rotateChain env cfg path d) c) ↔
      ∀ i c, i < keepCount cfg → Overwritten env cfg path d i →
        chunkAt gunzip path d i = some c → Spare env cfg gunzip path d c := by
  constructor
  · intro h i c hi _ hc
    exact (h c (.inr (.inr ⟨i, hi, hc⟩))).spare hgz
  · intro h c hc
    apply Spare.stored hgz
    rcases hc with hc | hc | ⟨i, hi, hc⟩
    · exact .live hc
    · exact .plain hc
    · by_cases hm : Moves env cfg path d i
      · exact .moved hm hc
      · by_cases hf : Filled env cfg path d i
        · exact h i c hi ⟨hm, hf⟩ hc
        · refine .left ?_ hf hc
          rintro ⟨rfl, -⟩
          exact absurd hi (lt_irrefl _)

end Kept

end Faults

/-- Three chunks, the oldest in `.2.gz`. -/
def threeChunks : LogDir where
  files p :=
    if p = "stdout.log" then some [0x63]
    else if p = plainName "stdout.log" then some [0x62]
    else if p = gzName "stdout.log" 2 then some [0x1f, 0x8b, 0x61]
    else none

/-- A call in which one operation fails. -/
def failing (op : RotateOp) : RotateEnv :=
  markedEnv fun op' => if op' = op then some { text := "Input/output error (os error 5)" } else none

theorem chunkAt_threeChunks (i : ℕ) :
    chunkAt unmarkGzip "stdout.log" threeChunks i = if i = 2 then some [0x61] else none := by
  have h1 : gzName "stdout.log" i ≠ "stdout.log" := gzName_ne _ i
  have h2 : gzName "stdout.log" i ≠ plainName "stdout.log" := (plainName_ne_gzName _ i).symm
  simp only [chunkAt, threeChunks, if_neg h1, if_neg h2, gzName_inj]
  split_ifs <;> rfl

/-- A failed truncation loses nothing. -/
theorem keepsChunks_truncate :
    (∀ data, unmarkGzip ((failing .truncate).gzip data) = some data) ∧
      ∀ c, Guarded {} unmarkGzip "stdout.log" threeChunks c →
        Stored unmarkGzip "stdout.log"
          (rotateChain (failing .truncate) {} "stdout.log" threeChunks) c := by
  have hgz : ∀ data, unmarkGzip ((failing .truncate).gzip data) = some data := fun _ => rfl
  refine ⟨hgz, (keepsChunks_iff hgz).mpr fun i c _ hover hc => ?_⟩
  rw [chunkAt_threeChunks] at hc
  split_ifs at hc with hi
  subst hi
  exact absurd (by decide +kernel) hover.1

/-- A rename that fails loses the oldest chunk: the next one is compressed into its place. -/
theorem failedRename_loses_chunk :
    Guarded {} unmarkGzip "stdout.log" threeChunks [0x61] ∧
      (rotateChain (failing (.rename 2)) {} "stdout.log" threeChunks).files
        (gzName "stdout.log" 2) = some [0x1f, 0x8b, 0x62] ∧
      ¬ Stored unmarkGzip "stdout.log"
        (rotateChain (failing (.rename 2)) {} "stdout.log" threeChunks) [0x61] := by
  refine ⟨.inr (.inr ⟨2, by decide, chunkAt_threeChunks 2⟩), by decide +kernel, ?_⟩
  intro hstored
  have hspare := hstored.spare fun _ => rfl
  have hlive : threeChunks.files "stdout.log" = some [0x63] := rfl
  have hplain : threeChunks.files (plainName "stdout.log") = some [0x62] := by decide +kernel
  have hi : ∀ {i}, chunkAt unmarkGzip "stdout.log" threeChunks i = some [0x61] → i = 2 := by
    intro i h
    rw [chunkAt_threeChunks] at h
    split_ifs at h with hi
    exact hi
  cases hspare with
  | live h => cases hlive.symm.trans h
  | plain h => cases hplain.symm.trans h
  | moved hm h =>
      obtain rfl := hi h
      exact absurd hm (by decide +kernel)
  | left hd hf h =>
      obtain rfl := hi h
      refine hf (.inr ⟨rfl, ?_, ?_⟩)
      · decide +kernel
      · exact fun f h => by cases h
  | partArchive hs hf h => cases hf
  | partCopy hm hs hf h => cases hf

end LogDir

end Unitpm.Logs
