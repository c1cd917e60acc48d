import Unitpm.Lib.Run
import Unitpm.Lib.Str
import Unitpm.Rotate

/-! # The archives of a log

What `rotate_chain` leaves in every file of the log, whatever fails on the way: `gz_shiftChain` for
the loop of renames, `gz_rotateChain`, `plain_rotateChain` and `live_rotateChain` for the whole
call.  The loop goes down from the last archive, so it finds each archive as the call found it. -/

namespace Unitpm.Logs

open Rust.Str

namespace LogDir

/-! ### Names -/

/-- `{path}.{i}`. -/
def plainAt (path : String) (i : ℕ) : String := path ++ "." ++ toString i

theorem toList_plainAt (path : String) (i : ℕ) :
    (plainAt path i).toList = (path ++ ".").toList ++ padZero 0 i := by
  simp [plainAt, padZero, List.leftpad]

theorem gzName_eq (path : String) (i : ℕ) : gzName path i = plainAt path i ++ ".gz" := rfl

theorem plainName_eq (path : String) : plainName path = plainAt path 1 := by
  rw [plainAt, String.append_assoc]
  rfl

theorem plainAt_injective (path : String) : Function.Injective (plainAt path) := by
  intro i j h
  have hl := congrArg String.toList h
  rw [toList_plainAt, toList_plainAt] at hl
  rw [← digitsVal_padZero 0 i, List.append_cancel_left hl, digitsVal_padZero]

theorem gzName_injective (path : String) : Function.Injective (gzName path) := by
  intro i j h
  have hl := congrArg String.toList h
  rw [gzName_eq, gzName_eq, String.toList_append, String.toList_append] at hl
  exact plainAt_injective path (String.toList_injective (List.append_cancel_right hl))

theorem gzName_inj {path : String} {i j : ℕ} : gzName path i = gzName path j ↔ i = j :=
  (gzName_injective path).eq_iff

theorem plainAt_ne_gzName (path : String) (i j : ℕ) : plainAt path i ≠ gzName path j := by
  intro h
  have hl := congrArg String.toList h
  rw [gzName_eq, String.toList_append, toList_plainAt, toList_plainAt, List.append_assoc] at hl
  have hdigits := List.append_cancel_left hl
  have hdot : '.' ∈ padZero 0 i := by
    rw [hdigits]
    simp
  exact absurd (isDigit_of_mem_padZero _ hdot) (by decide)

theorem plainName_ne_gzName (path : String) (j : ℕ) : plainName path ≠ gzName path j := by
  rw [plainName_eq]
  exact plainAt_ne_gzName path 1 j

theorem plainAt_ne (path : String) (i : ℕ) : plainAt path i ≠ path := by
  have h : plainAt path i = path ++ ("." ++ toString i) := String.append_assoc ..
  rw [h]
  apply append_ne_self path
  intro h
  have := congrArg String.length h
  simp [String.length_append] at this

/-! ### The renames -/

section Chain

variable (env : RotateEnv) (cfg : RotateConfig) (path : String) (d : LogDir)

theorem files_removeFile_eq (op : RotateOp) (p q : String) :
    (d.removeFile env op p).1.files q =
      if q = p ∧ env.fault op = none then none else d.files q := by
  by_cases hq : q = p
  · subst hq
    unfold removeFile
    split
    · rename_i hnone
      simp [hnone]
    · rename_i f hsome hf
      simp [hf]
    · rename_i hsome hf
      simp [hf]
  · rw [files_removeFile hq, if_neg fun h => hq h.1]

/-- Archive `i` is there and can be renamed. -/
def Movable (i : ℕ) : Prop :=
  (d.files (gzName path i)).isSome = true ∧ env.fault (.rename i) = none

instance (i : ℕ) : Decidable (Movable env path d i) := inferInstanceAs (Decidable (_ ∧ _))

theorem movable_congr {d e : LogDir} {i : ℕ}
    (h : d.files (gzName path i) = e.files (gzName path i)) :
    Movable env path d i ↔ Movable env path e i := by
  unfold Movable
  rw [h]

theorem gz_shift (i j : ℕ) :
    (shift env path d i).files (gzName path j) =
      if Movable env path d i ∧ j = i + 1 then d.files (gzName path i)
      else if Movable env path d i ∧ j = i then none else d.files (gzName path j) := by
  rw [shift, files_reportUnlessNotFound]
  unfold rename
  split
  · rename_i hsrc
    simp [Movable, hsrc]
  · rename_i f hsrc hf
    simp [Movable, hf]
  · rename_i data hsrc hf
    have hmove : Movable env path d i := ⟨by rw [hsrc]; rfl, hf⟩
    have hne : gzName path (i + 1) ≠ gzName path i := by
      rw [Ne, gzName_inj]
      omega
    by_cases h1 : j = i + 1
    · subst h1
      rw [if_pos ⟨hmove, rfl⟩, files_set_of_ne hne, files_set_self, hsrc]
    · rw [if_neg fun h => h1 h.2]
      by_cases h2 : j = i
      · subst h2
        rw [if_pos ⟨hmove, rfl⟩, files_set_self]
      · rw [if_neg fun h => h2 h.2, files_set_of_ne fun h => h2 (gzName_inj.mp h),
          files_set_of_ne fun h => h1 (gzName_inj.mp h)]

theorem gz_shift_self (i : ℕ) :
    (shift env path d i).files (gzName path i) =
      if Movable env path d i then none else d.files (gzName path i) := by
  rw [gz_shift, if_neg (by omega), if_congr (and_iff_left rfl) rfl rfl]

theorem gz_shift_succ (i : ℕ) :
    (shift env path d i).files (gzName path (i + 1)) =
      if Movable env path d i then d.files (gzName path i)
      else d.files (gzName path (i + 1)) := by
  rw [gz_shift, if_congr (and_iff_left rfl) rfl rfl, if_neg (by omega : ¬ (_ ∧ i + 1 = i))]

theorem gz_shift_of_ne {i j : ℕ} (h : j ≠ i) (hsucc : j ≠ i + 1) :
    (shift env path d i).files (gzName path j) = d.files (gzName path j) := by
  rw [gz_shift, if_neg fun e => hsucc e.2, if_neg fun e => h e.2]

/-- Archive `j` after the loop of renames that comes down from `a + n` to `a`. -/
def shiftedTo (a n j : ℕ) : Option (List UInt8) :=
  if a < j ∧ j ≤ a + n ∧ Movable env path d (j - 1) then d.files (gzName path (j - 1))
  else if a ≤ j ∧ j < a + n ∧ Movable env path d j then none
  else d.files (gzName path j)

section Step

variable {a n j : ℕ}

theorem shiftedTo_below (hj : j < a + n) :
    shiftedTo env path (shift env path d (a + n)) a n j = shiftedTo env path d a (n + 1) j := by
  have hbelow : ∀ i ≤ j, (shift env path d (a + n)).files (gzName path i) =
      d.files (gzName path i) :=
    fun i hi => gz_shift_of_ne env path d (by omega) (by omega)
  have hmove : ∀ i ≤ j, (Movable env path (shift env path d (a + n)) i ↔ Movable env path d i) :=
    fun i hi => movable_congr env path (hbelow i hi)
  have hin : (a < j ∧ j ≤ a + n ∧ Movable env path (shift env path d (a + n)) (j - 1)) ↔
      a < j ∧ j ≤ a + (n + 1) ∧ Movable env path d (j - 1) :=
    and_congr_right' (and_congr (by omega) (hmove (j - 1) (by omega)))
  have hout : (a ≤ j ∧ j < a + n ∧ Movable env path (shift env path d (a + n)) j) ↔
      a ≤ j ∧ j < a + (n + 1) ∧ Movable env path d j :=
    and_congr_right' (and_congr (by omega) (hmove j le_rfl))
  simp only [shiftedTo, hin, hout, hbelow j le_rfl, hbelow (j - 1) (by omega)]

theorem shiftedTo_top :
    shiftedTo env path (shift env path d (a + n)) a n (a + n) =
      shiftedTo env path d a (n + 1) (a + n) := by
  have hout : (a ≤ a + n ∧ a + n < a + (n + 1) ∧ Movable env path d (a + n)) ↔
      Movable env path d (a + n) := by simp
  have hstay : ¬ (a ≤ a + n ∧ a + n < a + n ∧
      Movable env path (shift env path d (a + n)) (a + n)) := by
    omega
  rw [shiftedTo, shiftedTo, if_neg hstay, gz_shift_self, if_congr hout rfl rfl]
  rcases Nat.eq_zero_or_pos n with rfl | hn
  · rw [if_neg (by omega : ¬ (a < a + 0 ∧ _)), if_neg (by omega : ¬ (a < a + 0 ∧ _))]
  · have hbelow : (shift env path d (a + n)).files (gzName path (a + n - 1)) =
        d.files (gzName path (a + n - 1)) :=
      gz_shift_of_ne env path d (by omega) (by omega)
    have hin : (a < a + n ∧ a + n ≤ a + n ∧
        Movable env path (shift env path d (a + n)) (a + n - 1)) ↔
        a < a + n ∧ a + n ≤ a + (n + 1) ∧ Movable env path d (a + n - 1) :=
      and_congr_right' (and_congr (by omega) (movable_congr env path hbelow))
    rw [if_congr hin rfl rfl, hbelow]

theorem shiftedTo_above (hj : a + n < j) :
    shiftedTo env path (shift env path d (a + n)) a n j = shiftedTo env path d a (n + 1) j := by
  rw [shiftedTo, shiftedTo, if_neg (by omega : ¬ (a < j ∧ j ≤ a + n ∧ _)),
    if_neg (by omega : ¬ (a ≤ j ∧ j < a + n ∧ _)),
    if_neg (by omega : ¬ (a ≤ j ∧ j < a + (n + 1) ∧ _))]
  by_cases hsucc : j = a + n + 1
  · subst hsucc
    have hin : (a < a + n + 1 ∧ a + n + 1 ≤ a + (n + 1) ∧ Movable env path d (a + n)) ↔
        Movable env path d (a + n) :=
      ⟨fun h => h.2.2, fun h => ⟨by omega, by omega, h⟩⟩
    rw [gz_shift_succ, Nat.add_sub_cancel, if_congr hin rfl rfl]
  · rw [gz_shift_of_ne env path d (by omega) hsucc,
      if_neg (by omega : ¬ (a < j ∧ j ≤ a + (n + 1) ∧ _))]

end Step

/-- **The loop of renames**, from the last archive down to `a`. -/
theorem gz_foldl_shift (a n j : ℕ) :
    ((List.range' a n).reverse.foldl (shift env path) d).files (gzName path j) =
      shiftedTo env path d a n j := by
  induction n generalizing d with
  | zero =>
      rw [shiftedTo, if_neg (by omega), if_neg (by omega)]
      rfl
  | succ n ih =>
      rw [List.range'_1_concat, List.reverse_append, List.reverse_singleton, List.singleton_append,
        List.foldl_cons, ih]
      rcases Nat.lt_trichotomy j (a + n) with hj | rfl | hj
      · exact shiftedTo_below env path d hj
      · exact shiftedTo_top env path d
      · exact shiftedTo_above env path d hj

/-- The index of the archive that a rotation writes. -/
def firstIndex : ℕ := if cfg.delayCompress then 2 else 1

theorem firstIndex_delayed (h : cfg.delayCompress = true) : firstIndex cfg = 2 := if_pos h

theorem firstIndex_immediate (h : cfg.delayCompress = false) : firstIndex cfg = 1 :=
  if_neg (by simp [h])

theorem firstIndex_pos : 0 < firstIndex cfg := by
  unfold firstIndex
  split_ifs <;> omega

theorem keepCount_pos : 0 < keepCount cfg := by
  unfold keepCount
  omega

/-- Archive `i` moves up. -/
def Moves (i : ℕ) : Prop := firstIndex cfg ≤ i ∧ i < keepCount cfg ∧ Movable env path d i

instance (i : ℕ) : Decidable (Moves env cfg path d i) := inferInstanceAs (Decidable (_ ∧ _))

/-- Archive `i` is removed. -/
def Dropped (i : ℕ) : Prop := i = keepCount cfg ∧ env.fault .removeOldest = none

instance (i : ℕ) : Decidable (Dropped env cfg i) := inferInstanceAs (Decidable (_ ∧ _))

theorem gz_removeOldest (what : String) (j : ℕ) :
    (reportUnlessNotFound what
      (d.removeFile env .removeOldest (gzName path (keepCount cfg)))).files (gzName path j) =
      if Dropped env cfg j then none else d.files (gzName path j) := by
  rw [files_reportUnlessNotFound, files_removeFile_eq]
  exact if_congr (and_congr_left' gzName_inj) rfl rfl

/-- Archive `j` after the renames: what moves up is one place higher, what is removed or has moved
is gone, and the rest is as it was. -/
def movedUp (j : ℕ) : Option (List UInt8) :=
  if Moves env cfg path d (j - 1) then d.files (gzName path (j - 1))
  else if Moves env cfg path d j ∨ Dropped env cfg j then none
  else d.files (gzName path j)

/-- **The chain** of archives after the removal and the renames. -/
theorem gz_shiftChain (j : ℕ) :
    (shiftChain env cfg path d).files (gzName path j) = movedUp env cfg path d j := by
  have hshifted : shifted cfg =
      (List.range' (firstIndex cfg) (keepCount cfg - firstIndex cfg)).reverse := rfl
  have hfirst := firstIndex_pos cfg
  rw [shiftChain, hshifted, gz_foldl_shift, shiftedTo, movedUp]
  generalize hd₀ : reportUnlessNotFound _ _ = d₀
  have hgz : ∀ i, d₀.files (gzName path i) =
      if Dropped env cfg i then none else d.files (gzName path i) := by
    intro i
    rw [← hd₀, gz_removeOldest]
  -- below `keep` nothing has been removed
  have hbelow : ∀ i < keepCount cfg, d₀.files (gzName path i) = d.files (gzName path i) := by
    intro i hi
    rw [hgz, if_neg fun h => by have := h.1; omega]
  have hmove : ∀ i < keepCount cfg, (Movable env path d₀ i ↔ Movable env path d i) :=
    fun i hi => movable_congr env path (hbelow i hi)
  by_cases h1 : Moves env cfg path d (j - 1)
  · obtain ⟨hle, hlt, hm⟩ := h1
    rw [if_pos ⟨by omega, by omega, (hmove _ hlt).mpr hm⟩, if_pos ⟨hle, hlt, hm⟩, hbelow _ hlt]
  · have h1' : ¬ (firstIndex cfg < j ∧ j ≤ firstIndex cfg + (keepCount cfg - firstIndex cfg) ∧
        Movable env path d₀ (j - 1)) := by
      rintro ⟨hlt, hle, hm⟩
      exact h1 ⟨by omega, by omega, (hmove _ (by omega)).mp hm⟩
    rw [if_neg h1', if_neg h1]
    by_cases h2 : Moves env cfg path d j
    · obtain ⟨hle, hlt, hm⟩ := h2
      rw [if_pos ⟨by omega, by omega, (hmove _ hlt).mpr hm⟩, if_pos (.inl ⟨hle, hlt, hm⟩)]
    · have h2' : ¬ (firstIndex cfg ≤ j ∧ j < firstIndex cfg + (keepCount cfg - firstIndex cfg) ∧
          Movable env path d₀ j) := by
        rintro ⟨hle, hlt, hm⟩
        exact h2 ⟨by omega, by omega, (hmove _ (by omega)).mp hm⟩
      rw [if_neg h2', hgz]
      simp only [h2, false_or]

end Chain

/-! ### The copies -/

section Copies

variable (env : RotateEnv) (cfg : RotateConfig) (path : String) (d : LogDir)

/-- What a copy of `data` puts into its destination, if it puts anything there. -/
def sent (encode : List UInt8 → List UInt8) (op : RotateOp) (data : Option (List UInt8)) :
    Option (List UInt8) :=
  data.bind fun data =>
    match env.fault op with
    | none => some (encode data)
    | some f => f.leaves

variable {env} in
theorem sent_eq_some_iff {encode : List UInt8 → List UInt8} {op : RotateOp}
    {data : Option (List UInt8)} {x : List UInt8} :
    sent env encode op data = some x ↔
      (env.fault op = none ∧ ∃ y, data = some y ∧ encode y = x) ∨
        ∃ f, env.fault op = some f ∧ data.isSome = true ∧ f.leaves = some x := by
  unfold sent
  cases data with
  | none => simp
  | some y => cases hf : env.fault op <;> simp

variable {env} in
theorem sent_eq_none_iff {encode : List UInt8 → List UInt8} {op : RotateOp}
    {data : Option (List UInt8)} :
    sent env encode op data = none ↔
      data = none ∨ ∃ f, env.fault op = some f ∧ f.leaves = none := by
  unfold sent
  cases data with
  | none => simp
  | some data => cases hf : env.fault op <;> simp

theorem files_transfer_eq (encode : List UInt8 → List UInt8) (op : RotateOp) (src dst q : String) :
    (d.transfer env encode op src dst).1.files q =
      if q = dst then (sent env encode op (d.files src)).or (d.files q) else d.files q := by
  by_cases hq : q = dst
  · subst hq
    rw [if_pos rfl]
    unfold transfer sent
    split
    · rename_i hsrc
      rw [hsrc]
      rfl
    · rename_i f hsrc hf
      rw [hsrc, hf]
      cases hl : f.leaves <;> simp [hl]
    · rename_i data hsrc hf
      rw [hsrc, hf]
      simp
  · rw [if_neg hq, files_transfer hq]

theorem transfer_ok_iff (encode : List UInt8 → List UInt8) (op : RotateOp) (src dst : String) :
    (d.transfer env encode op src dst).2 = none ↔
      (d.files src).isSome = true ∧ env.fault op = none := by
  unfold transfer
  split
  · rename_i hsrc
    simp [hsrc]
  · rename_i f hsrc hf
    simp [hf]
  · rename_i data hsrc hf
    simp [hsrc, hf]

theorem orReturn_of_none {what : String} {next : LogDir → LogDir × Bool}
    {r : LogDir × Option IoError} (h : r.2 = none) : orReturn what next r = next r.1 := by
  obtain ⟨d, e⟩ := r
  subst h
  rfl

theorem orReturn_of_ne {what : String} {next : LogDir → LogDir × Bool}
    {r : LogDir × Option IoError} (h : r.2 ≠ none) :
    (orReturn what next r).1.files = r.1.files ∧ (orReturn what next r).2 = false := by
  obtain ⟨d, e | e⟩ := r
  · exact absurd rfl h
  · exact ⟨rfl, rfl⟩

theorem orReturn_end (what : String) (r : LogDir × Option IoError) :
    (orReturn what (fun d => (d, true)) r).1.files = r.1.files ∧
      ((orReturn what (fun d => (d, true)) r).2 = true ↔ r.2 = none) := by
  obtain ⟨d, e | e⟩ := r
  · exact ⟨rfl, by simp [orReturn]⟩
  · exact ⟨rfl, by simp [orReturn]⟩

/-- The file that is compressed. -/
def source : Option (List UInt8) :=
  if cfg.delayCompress then d.files (plainName path) else d.files path

def compressOp : RotateOp := if cfg.delayCompress then .compressPlain else .compressLive

/-- What the compression puts into the first archive, if it puts anything there. -/
def compressed : Option (List UInt8) := sent env env.gzip (compressOp cfg) (source cfg path d)

/-- The plain copy has been compressed, or there was none. -/
def PlainMoved : Prop :=
  (d.files (plainName path)).isSome = true → env.fault .compressPlain = none

instance : Decidable (PlainMoved env path d) := inferInstanceAs (Decidable (_ → _))

/-- The call comes to its last step. -/
def Reaches : Prop :=
  (d.files path).isSome = true ∧
    if cfg.delayCompress then PlainMoved env path d ∧ env.fault .copyLive = none
    else env.fault .compressLive = none

instance : Decidable (Reaches env cfg path d) :=
  inferInstanceAs (Decidable ((d.files path).isSome = true ∧ if cfg.delayCompress then
    PlainMoved env path d ∧ env.fault .copyLive = none else env.fault .compressLive = none))

/-- The plain copy is compressed and removed, and the call goes on. -/
theorem compressPlain_of_moved (next : LogDir → LogDir × Bool) (h : PlainMoved env path d) :
    ∃ e : LogDir, compressPlain env path next d = next e ∧ ∀ q, e.files q =
      if q = gzName path 2 then
        (sent env env.gzip .compressPlain (d.files (plainName path))).or (d.files q)
      else if q = plainName path ∧ env.fault .removePlain = none then none
      else d.files q := by
  simp only [compressPlain]
  by_cases hp : (d.files (plainName path)).isSome = true
  · have hok : (d.compressFile env .compressPlain (plainName path) (gzName path 2)).2 = none :=
      (transfer_ok_iff ..).mpr ⟨hp, h hp⟩
    rw [if_pos hp, orReturn_of_none hok]
    refine ⟨_, rfl, fun q => ?_⟩
    rw [files_reportUnlessNotFound, files_removeFile_eq, compressFile, files_transfer_eq]
    by_cases hq : q = gzName path 2
    · have hne : ¬ (q = plainName path ∧ env.fault .removePlain = none) :=
        fun h => plainName_ne_gzName path 2 (h.1.symm.trans hq)
      rw [if_neg hne, if_pos hq, if_pos hq]
    · rw [if_neg hq, if_neg hq]
  · have hnone : d.files (plainName path) = none := by simpa using hp
    rw [if_neg hp]
    refine ⟨d, rfl, fun q => ?_⟩
    rw [hnone]
    by_cases hq : q = plainName path
    · subst hq
      rw [if_neg (plainName_ne_gzName path 2), hnone, ite_self]
    · have hne : ¬ (q = plainName path ∧ env.fault .removePlain = none) := fun h => hq h.1
      rw [if_neg hne]
      split_ifs <;> rfl

theorem compressPlain_of_not_moved (next : LogDir → LogDir × Bool)
    (h : ¬ PlainMoved env path d) : (∀ q, (compressPlain env path next d).1.files q =
      if q = gzName path 2 then
        (sent env env.gzip .compressPlain (d.files (plainName path))).or (d.files q)
      else d.files q) ∧ (compressPlain env path next d).2 = false := by
  obtain ⟨hp, hf⟩ := Classical.not_imp.mp h
  have hne : (d.compressFile env .compressPlain (plainName path) (gzName path 2)).2 ≠ none :=
    fun hok => hf ((transfer_ok_iff ..).mp hok).2
  simp only [compressPlain]
  rw [if_pos hp, (orReturn_of_ne hne).1, (orReturn_of_ne hne).2]
  exact ⟨fun q => files_transfer_eq .., rfl⟩

/-! ### The whole call -/

/-- The live file is copied, and the call goes on. -/
def copyStep (d : LogDir) : LogDir × Bool :=
  orReturn ("log-rotate: copy " ++ path ++ " → " ++ plainName path) (fun d => (d, true))
    (d.copyFile env .copyLive path (plainName path))

theorem live_shiftChain : (shiftChain env cfg path d).files path = d.files path :=
  files_shiftChain fun i => (gzName_ne path i).symm

theorem plain_shiftChain :
    (shiftChain env cfg path d).files (plainName path) = d.files (plainName path) :=
  files_shiftChain fun i => plainName_ne_gzName path i

theorem plainMoved_shiftChain :
    PlainMoved env path (shiftChain env cfg path d) ↔ PlainMoved env path d := by
  rw [PlainMoved, PlainMoved, plain_shiftChain]

theorem archive_immediate (h : cfg.delayCompress = false) :
    (∀ q, (archive env cfg path d).1.files q =
      if q = gzName path 1 then (compressed env cfg path d).or
        ((shiftChain env cfg path d).files q)
      else (shiftChain env cfg path d).files q) ∧
      ((archive env cfg path d).2 = true ↔ Reaches env cfg path d) := by
  have hlive := live_shiftChain env cfg path d
  have hend := orReturn_end ("log-rotate: compress " ++ path)
    ((shiftChain env cfg path d).compressFile env .compressLive path (gzName path 1))
  simp only [archive, h, Bool.false_eq_true, if_false]
  constructor
  · intro q
    rw [hend.1, compressFile, files_transfer_eq, hlive]
    simp [compressed, source, compressOp, h]
  · rw [hend.2, compressFile, transfer_ok_iff, hlive]
    simp [Reaches, h]

section Delayed

variable (h : cfg.delayCompress = true)
include h

theorem archive_eq_compressPlain : archive env cfg path d =
    compressPlain env path (copyStep env path) (shiftChain env cfg path d) := by
  simp only [archive, h, if_true]
  rfl

theorem compressed_delayed : compressed env cfg path d =
    sent env env.gzip .compressPlain ((shiftChain env cfg path d).files (plainName path)) := by
  rw [plain_shiftChain]
  simp [compressed, source, compressOp, h]

/-- The plain copy has made room, and the live log is copied into its place. -/
theorem archive_of_moved (hm : PlainMoved env path d) :
    (∀ q, (archive env cfg path d).1.files q =
      if q = gzName path 2 then (compressed env cfg path d).or
        ((shiftChain env cfg path d).files q)
      else if q = plainName path then
        (sent env id .copyLive (d.files path)).or
          (if env.fault .removePlain = none then none else d.files q)
      else (shiftChain env cfg path d).files q) ∧
      ((archive env cfg path d).2 = true ↔ Reaches env cfg path d) := by
  obtain ⟨e, he, hfiles⟩ := compressPlain_of_moved env path (shiftChain env cfg path d)
    (copyStep env path) ((plainMoved_shiftChain env cfg path d).mpr hm)
  rw [← compressed_delayed env cfg path d h] at hfiles
  have helive : e.files path = d.files path := by
    rw [hfiles, if_neg (gzName_ne path 2).symm, if_neg fun h => plainName_ne path h.1.symm,
      live_shiftChain]
  have hend := orReturn_end ("log-rotate: copy " ++ path ++ " → " ++ plainName path)
    (e.copyFile env .copyLive path (plainName path))
  rw [archive_eq_compressPlain env cfg path d h, he, copyStep]
  constructor
  · intro q
    rw [hend.1, copyFile, files_transfer_eq, helive, hfiles]
    by_cases hq : q = plainName path
    · subst hq
      rw [if_pos rfl, if_neg (plainName_ne_gzName path 2), if_neg (plainName_ne_gzName path 2),
        if_pos rfl, plain_shiftChain]
      simp
    · have hne : ¬ (q = plainName path ∧ env.fault .removePlain = none) := fun h => hq h.1
      rw [if_neg hq, if_neg hne, if_neg hq]
  · rw [hend.2, copyFile, transfer_ok_iff, helive]
    simp [Reaches, h, hm]

/-- The call ends with the plain copy where it was. -/
theorem archive_of_not_moved (hm : ¬ PlainMoved env path d) :
    (∀ q, (archive env cfg path d).1.files q =
      if q = gzName path 2 then (compressed env cfg path d).or
        ((shiftChain env cfg path d).files q)
      else (shiftChain env cfg path d).files q) ∧
      ((archive env cfg path d).2 = true ↔ Reaches env cfg path d) := by
  obtain ⟨hfiles, hstop⟩ := compressPlain_of_not_moved env path (shiftChain env cfg path d)
    (copyStep env path) (mt (plainMoved_shiftChain env cfg path d).mp hm)
  rw [archive_eq_compressPlain env cfg path d h]
  constructor
  · intro q
    rw [hfiles, ← compressed_delayed env cfg path d h]
  · rw [hstop]
    simp [Reaches, h, hm]

theorem archive_delayed :
    (∀ q, (archive env cfg path d).1.files q =
      if q = gzName path 2 then (compressed env cfg path d).or
        ((shiftChain env cfg path d).files q)
      else if q = plainName path ∧ PlainMoved env path d then
        (sent env id .copyLive (d.files path)).or
          (if env.fault .removePlain = none then none else d.files q)
      else (shiftChain env cfg path d).files q) ∧
      ((archive env cfg path d).2 = true ↔ Reaches env cfg path d) := by
  by_cases hm : PlainMoved env path d
  · obtain ⟨hfiles, hend⟩ := archive_of_moved env cfg path d h hm
    refine ⟨fun q => ?_, hend⟩
    rw [hfiles]
    simp only [hm, and_true]
  · obtain ⟨hfiles, hend⟩ := archive_of_not_moved env cfg path d h hm
    refine ⟨fun q => ?_, hend⟩
    rw [hfiles]
    simp only [hm, and_false, if_false]

end Delayed

theorem files_truncate (q : String) :
    (truncate env path d).files q =
      if q = path ∧ (d.files path).isSome = true ∧ env.fault .truncate = none then some []
      else d.files q := by
  unfold truncate
  split
  · rename_i hnone
    simp [hnone]
  · rename_i f hsome hf
    simp [hf]
  · rename_i hsome hf
    by_cases hq : q = path
    · subst hq
      simp [hsome, hf]
    · rw [files_set_of_ne hq, if_neg fun h => hq h.1]

theorem files_rotateChain (q : String) :
    (rotateChain env cfg path d).files q =
      if q = path ∧ (archive env cfg path d).2 = true ∧ (d.files path).isSome = true ∧
        env.fault .truncate = none then some []
      else (archive env cfg path d).1.files q := by
  have hlive := archive_live env cfg path d
  unfold rotateChain
  split
  · rename_i e he
    rw [he] at hlive
    rw [files_truncate, hlive, he]
    simp
  · rename_i e he
    rw [he]
    simp

theorem archive_reaches_iff : (archive env cfg path d).2 = true ↔ Reaches env cfg path d := by
  cases h : cfg.delayCompress with
  | true => exact (archive_delayed env cfg path d h).2
  | false => exact (archive_immediate env cfg path d h).2

/-- **The compressed archives** after a rotation. -/
theorem gz_rotateChain (j : ℕ) :
    (rotateChain env cfg path d).files (gzName path j) =
      (if j = firstIndex cfg then compressed env cfg path d else none).or
        (movedUp env cfg path d j) := by
  rw [files_rotateChain, if_neg fun h => gzName_ne path j h.1, ← gz_shiftChain]
  cases h : cfg.delayCompress with
  | true =>
      have hne : ¬ (gzName path j = plainName path ∧ PlainMoved env path d) :=
        fun h => plainName_ne_gzName path j h.1.symm
      rw [(archive_delayed env cfg path d h).1, if_neg hne, firstIndex_delayed cfg h]
      simp only [gzName_inj]
      split_ifs <;> rfl
  | false =>
      rw [(archive_immediate env cfg path d h).1, firstIndex_immediate cfg h]
      simp only [gzName_inj]
      split_ifs <;> rfl

/-- **The plain copy** after a rotation. -/
theorem plain_rotateChain :
    (rotateChain env cfg path d).files (plainName path) =
      if cfg.delayCompress = true ∧ PlainMoved env path d then
        (sent env id .copyLive (d.files path)).or
          (if env.fault .removePlain = none then none else d.files (plainName path))
      else d.files (plainName path) := by
  have hplain := plain_shiftChain env cfg path d
  rw [files_rotateChain, if_neg fun h => plainName_ne path h.1]
  cases h : cfg.delayCompress with
  | true =>
      rw [(archive_delayed env cfg path d h).1, if_neg (plainName_ne_gzName path 2), hplain]
      simp
  | false =>
      rw [(archive_immediate env cfg path d h).1, if_neg (plainName_ne_gzName path 1), hplain]
      simp

/-- **The live file** after a rotation. -/
theorem live_rotateChain :
    (rotateChain env cfg path d).files path =
      if Reaches env cfg path d ∧ env.fault .truncate = none then some [] else d.files path := by
  rw [files_rotateChain, archive_live]
  have hiff : (path = path ∧ (archive env cfg path d).2 = true ∧ (d.files path).isSome = true ∧
      env.fault .truncate = none) ↔ Reaches env cfg path d ∧ env.fault .truncate = none := by
    rw [archive_reaches_iff]
    exact ⟨fun h => ⟨h.2.1, h.2.2.2⟩, fun h => ⟨rfl, h.1, h.1.1, h.2⟩⟩
  rw [if_congr hiff rfl rfl]

theorem files_rotateChain_of_ne {q : String} (hlive : q ≠ path) (hplain : q ≠ plainName path)
    (hgz : ∀ i, q ≠ gzName path i) : (rotateChain env cfg path d).files q = d.files q := by
  have hchain : (shiftChain env cfg path d).files q = d.files q := files_shiftChain hgz
  rw [files_rotateChain, if_neg fun h => hlive h.1]
  cases h : cfg.delayCompress with
  | true =>
      rw [(archive_delayed env cfg path d h).1, if_neg (hgz 2), if_neg fun h => hplain h.1, hchain]
  | false => rw [(archive_immediate env cfg path d h).1, if_neg (hgz 1), hchain]

end Copies

/-- An encoder that puts the magic bytes of the format in front of the data. -/
def markGzip (data : List UInt8) : List UInt8 := 0x1f :: 0x8b :: data

/-- The decoder that goes with it. -/
def unmarkGzip : List UInt8 → Option (List UInt8)
  | 0x1f :: 0x8b :: data => some data
  | _ => none

/-- A call with this encoder. -/
def markedEnv (fault : RotateOp → Option IoFault) : RotateEnv where
  gzip := markGzip
  fault := fault

end LogDir

end Unitpm.Logs
