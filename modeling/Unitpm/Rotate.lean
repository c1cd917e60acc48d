import Mathlib.Logic.Function.Basic
import Mathlib.Data.List.Range
import Mathlib.Tactic.Common

/-! # Log rotation

`rotate_chain` of `daemon::manager::rotate`: the oldest archive is removed, the others move up by
one, the live file is copied into the first place and then truncated (`set_len(0)` on the file the
daemon keeps writing to).  `archive` is all of it but the truncation, and touches only the archives
(`archive_live`).

Every operation of one call may fail on its own (`RotateEnv.fault`), and a copy that fails may leave
a part of its destination behind.  `gzip` stands for the encoder of `flate2`. -/

namespace Unitpm.Logs

/-- The part of `RotateConfig` that `rotate_chain` reads, with its defaults. -/
structure RotateConfig where
  keep : ℤ := 12
  delayCompress : Bool := true

/-- The file operations of one call of `rotate_chain`. -/
inductive RotateOp where
  | removeOldest
  | rename (i : ℕ)
  | compressPlain
  | removePlain
  | copyLive
  | compressLive
  | truncate
deriving DecidableEq

/-- An error other than `NotFound`, and what a failed copy leaves in its destination. -/
structure IoFault where
  text : String
  leaves : Option (List UInt8) := none

/-- What one call meets. -/
structure RotateEnv where
  gzip : List UInt8 → List UInt8
  fault : RotateOp → Option IoFault

inductive IoError where
  | notFound
  | other (text : String)

/-- `Display for io::Error`. -/
def IoError.toText : IoError → String
  | notFound => "No such file or directory (os error 2)"
  | other text => text

/-- The files in the directory of the log, and what has been printed to standard error. -/
structure LogDir where
  files : String → Option (List UInt8)
  stderr : List String := []

namespace LogDir

def set (d : LogDir) (path : String) (contents : Option (List UInt8)) : LogDir :=
  { d with files := Function.update d.files path contents }

/-- `eprintln!`. -/
def warn (d : LogDir) (msg : String) : LogDir := { d with stderr := d.stderr ++ [msg] }

section Operations

variable (env : RotateEnv)

/-- `fs::remove_file`. -/
def removeFile (op : RotateOp) (path : String) (d : LogDir) : LogDir × Option IoError :=
  match d.files path, env.fault op with
  | none, _ => (d, some .notFound)
  | some _, some f => (d, some (.other f.text))
  | some _, none => (d.set path none, none)

/-- `fs::rename`. -/
def rename (op : RotateOp) (src dst : String) (d : LogDir) : LogDir × Option IoError :=
  match d.files src, env.fault op with
  | none, _ => (d, some .notFound)
  | some _, some f => (d, some (.other f.text))
  | some data, none => ((d.set dst (some data)).set src none, none)

/-- `copy_file` and `compress_file`: the source is read, the destination created and written. -/
def transfer (encode : List UInt8 → List UInt8) (op : RotateOp) (src dst : String) (d : LogDir) :
    LogDir × Option IoError :=
  match d.files src, env.fault op with
  | none, _ => (d, some .notFound)
  | some _, some f =>
      (match f.leaves with
        | none => d
        | some part => d.set dst (some part), some (.other f.text))
  | some data, none => (d.set dst (some (encode data)), none)

/-- `copy_file`. -/
def copyFile : RotateOp → String → String → LogDir → LogDir × Option IoError := transfer env id

/-- `compress_file`. -/
def compressFile : RotateOp → String → String → LogDir → LogDir × Option IoError :=
  transfer env env.gzip

/-- An error of `remove_file` or `rename` is printed, unless the file is not there. -/
def reportUnlessNotFound (what : String) : LogDir × Option IoError → LogDir
  | (d, none) => d
  | (d, some .notFound) => d
  | (d, some (.other text)) => d.warn (what ++ ": " ++ text)

/-- An error that ends the call is printed; otherwise `next`. -/
def orReturn (what : String) (next : LogDir → LogDir × Bool) :
    LogDir × Option IoError → LogDir × Bool
  | (d, none) => next d
  | (d, some e) => (d.warn (what ++ ": " ++ e.toText), false)

variable (cfg : RotateConfig) (path : String)

/-- `{path}.{i}.gz`. -/
def gzName (i : ℕ) : String := path ++ "." ++ toString i ++ ".gz"

/-- `{path}.1`. -/
def plainName : String := path ++ ".1"

/-- `keep`, at least one. -/
def keepCount : ℕ := (max cfg.keep 1).toNat

/-- The indices of the archives that move up, from the last. -/
def shifted : List ℕ :=
  let start := if cfg.delayCompress then 2 else 1
  (List.range' start (keepCount cfg - start)).reverse

/-- One archive moves up. -/
def shift (d : LogDir) (i : ℕ) : LogDir :=
  reportUnlessNotFound ("log-rotate: rename " ++ gzName path i ++ " → " ++ gzName path (i + 1))
    (d.rename env (.rename i) (gzName path i) (gzName path (i + 1)))

/-- The oldest archive is dropped and the others move up. -/
def shiftChain (d : LogDir) : LogDir :=
  let oldest := gzName path (keepCount cfg)
  let d := reportUnlessNotFound ("log-rotate: remove " ++ oldest)
    (d.removeFile env .removeOldest oldest)
  (shifted cfg).foldl (shift env path) d

/-- The plain copy of the rotation before is compressed, if there is one. -/
def compressPlain (next : LogDir → LogDir × Bool) (d : LogDir) : LogDir × Bool :=
  let plain := plainName path
  if (d.files plain).isSome then
    orReturn ("log-rotate: compress " ++ plain)
      (fun d => next (reportUnlessNotFound ("log-rotate: remove " ++ plain)
        (d.removeFile env .removePlain plain)))
      (d.compressFile env .compressPlain plain (gzName path 2))
  else next d

/-- `rotate_chain` up to the truncation, and whether it gets there. -/
def archive (d : LogDir) : LogDir × Bool :=
  let d := shiftChain env cfg path d
  if cfg.delayCompress then
    compressPlain env path
      (fun d => orReturn ("log-rotate: copy " ++ path ++ " → " ++ plainName path)
        (fun d => (d, true)) (d.copyFile env .copyLive path (plainName path))) d
  else
    orReturn ("log-rotate: compress " ++ path) (fun d => (d, true))
      (d.compressFile env .compressLive path (gzName path 1))

/-- The end of `rotate_chain`: `set_len(0)` on the live file. -/
def truncate (d : LogDir) : LogDir :=
  let what := "log-rotate: truncate " ++ path ++ ": "
  match d.files path, env.fault .truncate with
  | none, _ => d.warn (what ++ IoError.notFound.toText)
  | some _, some f => d.warn (what ++ f.text)
  | some _, none => d.set path (some [])

/-- `rotate_chain`. -/
def rotateChain (d : LogDir) : LogDir :=
  match archive env cfg path d with
  | (d, true) => truncate env path d
  | (d, false) => d

end Operations

/-! ### The live file -/

section Live

variable {env : RotateEnv} {cfg : RotateConfig} {path p : String} {d : LogDir}

theorem append_ne_self (s : String) {t : String} (ht : t ≠ "") : s ++ t ≠ s := by
  intro h
  have := congrArg String.length h
  rw [String.length_append] at this
  exact ht (String.length_eq_zero_iff.mp (by omega))

theorem gzName_ne (path : String) (i : ℕ) : gzName path i ≠ path := by
  have h : gzName path i = path ++ ("." ++ toString i ++ ".gz") := by
    simp [gzName, String.append_assoc]
  rw [h]
  apply append_ne_self path
  intro h
  have := congrArg String.length h
  simp [String.length_append] at this

theorem plainName_ne (path : String) : plainName path ≠ path := append_ne_self path (by decide)

@[simp] theorem files_set_of_ne {q : String} (h : p ≠ q) (c : Option (List UInt8)) :
    (d.set q c).files p = d.files p := by
  simp [set, h]

@[simp] theorem files_set_self (c : Option (List UInt8)) : (d.set p c).files p = c := by
  simp [set]

@[simp] theorem files_warn (msg : String) : (d.warn msg).files = d.files := rfl

theorem files_removeFile {q : String} (h : p ≠ q) (op : RotateOp) :
    (d.removeFile env op q).1.files p = d.files p := by
  unfold removeFile
  split <;> simp [h]

theorem files_rename {src dst : String} (hs : p ≠ src) (hd : p ≠ dst) (op : RotateOp) :
    (d.rename env op src dst).1.files p = d.files p := by
  unfold rename
  split <;> simp [hs, hd]

theorem files_transfer {src dst : String} (hd : p ≠ dst) (encode : List UInt8 → List UInt8)
    (op : RotateOp) : (d.transfer env encode op src dst).1.files p = d.files p := by
  unfold transfer
  split
  · rfl
  · cases (‹IoFault› : IoFault).leaves <;> simp [hd]
  · simp [hd]

theorem files_reportUnlessNotFound (what : String) (r : LogDir × Option IoError) :
    (reportUnlessNotFound what r).files = r.1.files := by
  unfold reportUnlessNotFound
  split <;> rfl

theorem files_orReturn {what : String} {next : LogDir → LogDir × Bool}
    (hn : ∀ d, (next d).1.files p = d.files p) (r : LogDir × Option IoError) :
    (orReturn what next r).1.files p = r.1.files p := by
  unfold orReturn
  split
  · exact hn _
  · rfl

theorem files_shiftChain {q : String} (hq : ∀ i, q ≠ gzName path i) :
    (shiftChain env cfg path d).files q = d.files q := by
  have hshift : ∀ l d, (List.foldl (shift env path) d l).files q = d.files q := by
    intro l
    induction l with
    | nil => exact fun d => rfl
    | cons i l ih =>
        intro d
        rw [List.foldl_cons, ih, shift, files_reportUnlessNotFound,
          files_rename (hq i) (hq (i + 1))]
  rw [shiftChain, hshift, files_reportUnlessNotFound, files_removeFile (hq _)]

theorem files_compressPlain {next : LogDir → LogDir × Bool}
    (hn : ∀ d, (next d).1.files path = d.files path) :
    (compressPlain env path next d).1.files path = d.files path := by
  simp only [compressPlain]
  split
  · rw [files_orReturn, compressFile, files_transfer (gzName_ne path 2).symm]
    intro d
    rw [hn, files_reportUnlessNotFound, files_removeFile (plainName_ne path).symm]
  · exact hn d

/-- **Until the truncation** the live file is as it was. -/
theorem archive_live (env : RotateEnv) (cfg : RotateConfig) (path : String) (d : LogDir) :
    (archive env cfg path d).1.files path = d.files path := by
  have hend : ∀ what (r : LogDir × Option IoError),
      (orReturn what (fun d => (d, true)) r).1.files path = r.1.files path :=
    fun what r => files_orReturn (fun d => rfl) r
  have hchain : (shiftChain env cfg path d).files path = d.files path :=
    files_shiftChain fun i => (gzName_ne path i).symm
  simp only [archive]
  split
  · rw [files_compressPlain, hchain]
    intro d
    rw [hend, copyFile, files_transfer (plainName_ne path).symm]
  · rw [hend, compressFile, files_transfer (gzName_ne path 1).symm, hchain]

theorem truncate_live (env : RotateEnv) {c : List UInt8} (h : d.files path = some c) :
    (truncate env path d).files path =
      if (env.fault .truncate).isNone then some [] else some c := by
  cases hf : env.fault .truncate with
  | none => simp [truncate, h, hf]
  | some f => simp [truncate, h, hf]

end Live

end LogDir

end Unitpm.Logs
