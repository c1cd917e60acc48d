import Unitpm.Lib.JsonPretty
import Unitpm.SpecStore
import Unitpm.Wire

/-! # Saving a spec, and a crash on the way

`save_spec_protocol`, `load_spec_protocol` and `write_atomic` of `internal/spec` on bytes.
`write_atomic` is `fs::write` on the file itself: the file is opened and truncated, the text is
written in as many pieces as the kernel takes it, and then the permissions are set.  A crash leaves
what the first operations have done.

`fileAt_crashed` is what is on disk then, in the terms of `SpecStore`: the spec from before, the new
one, or a file that does not parse.  `load_after_crash_iff` says which crashes lose nothing. -/

namespace Unitpm

open Serde

/-! ### Files -/

/-- `jsonx::marshal_indent` with two spaces. -/
def marshalIndent {α : Type} (c : Shape α) (a : α) : List UInt8 :=
  Utf8.encode (Json.pretty 0 (c.encode a))

/-- A regular file: its content and its permissions. -/
structure DiskFile where
  bytes : List UInt8
  mode : ℕ
deriving DecidableEq

/-- The files of the spec directory, by name. -/
abbrev SpecFiles : Type := String → Option DiskFile

/-- The last component of `spec_path`. -/
def specFileName (id : String) : String := id ++ ".json"

/-- What a save asks of the kernel, one call at a time. -/
inductive FileOp where
  | truncate (created : ℕ)
  | append (piece : List UInt8)
  | chmod (mode : ℕ)

/-- The effect on the file.  `created` are the permissions of a file that was not there. -/
def FileOp.apply : Option DiskFile → FileOp → Option DiskFile
  | none, .truncate created => some { bytes := [], mode := created }
  | some f, .truncate _ => some { f with bytes := [] }
  | f, .append piece => f.map fun f => { f with bytes := f.bytes ++ piece }
  | f, .chmod mode => f.map fun f => { f with mode := mode }

/-! ### Saving and loading -/

/-- A run of `save_spec_protocol`: the pieces in which the text is written. -/
structure Save (s : AppSpec) where
  created : ℕ
  pieces : List (List UInt8)
  flatten_pieces : pieces.flatten = marshalIndent AppSpec.shape s

namespace Save

variable {s : AppSpec} (w : Save s)

/-- `write_atomic`. -/
def writeAtomic : List FileOp :=
  .truncate w.created :: (w.pieces.map .append ++ [.chmod 0o600])

/-- The files after a crash that only the first `k` operations have preceded. -/
def crashed (k : ℕ) (files : SpecFiles) (id : String) : SpecFiles :=
  Function.update files (specFileName id)
    ((w.writeAtomic.take k).foldl FileOp.apply (files (specFileName id)))

/-- The bytes that are written by then. -/
def written (k : ℕ) : List UInt8 := (w.pieces.take (k - 1)).flatten

end Save

/-- `jsonx::Error`: the bytes are no JSON text, or the text is of another shape. -/
inductive JsonError where
  | malformed
  | data (e : Serde.Error)
deriving DecidableEq

/-- `SpecError`; the directory itself is there. -/
inductive SpecError where
  | io (e : String)
  | json (e : JsonError)
deriving DecidableEq

variable (reader : Json.ByteReader)

/-- `jsonx::unmarshal` of the bytes of a file. -/
def unmarshalSpec (bytes : List UInt8) : Except JsonError AppSpec :=
  match reader.parse bytes with
  | none => .error .malformed
  | some j =>
      match AppSpec.shape.decode j with
      | .error e => .error (.data e)
      | .ok s => .ok s

/-- `load_spec_protocol`. -/
def loadSpecProtocol (files : SpecFiles) (id : String) : Except SpecError AppSpec :=
  match files (specFileName id) with
  | none => .error (.io "No such file or directory (os error 2)")
  | some f =>
      match unmarshalSpec reader f.bytes with
      | .error e => .error (.json e)
      | .ok spec => .ok spec.withNamespace

/-! ### The text of a spec -/

theorem within_btreeMap {n : ℕ} : BTreeMap.shape.Within (n + 1) := by
  intro m _
  refine .obj n _ fun p hp => ?_
  obtain ⟨q, -, rfl⟩ := List.mem_map.mp hp
  exact .str n q.2

theorem within_appExec {n : ℕ} : AppExec.shape.Within (n + 2) :=
  (Record.Within.nil AppExec.mk)
    |>.required within_string
    |>.optional within_string
    |>.optional (within_vec within_string)
    |>.optional within_string
    |>.optional within_string
    |>.flag
    |>.shape

theorem within_appLogs {n : ℕ} : AppLogs.shape.Within (n + 1) :=
  (Record.Within.nil AppLogs.mk)
    |>.required within_string
    |>.optional within_string
    |>.optional within_string
    |>.optional within_string
    |>.optional within_string
    |>.optional within_string
    |>.shape

theorem within_appRestart {n : ℕ} : AppRestart.shape.Within (n + 2) :=
  (Record.Within.nil AppRestart.mk)
    |>.required within_string
    |>.optional within_i32
    |>.optional within_i32
    |>.optional within_string
    |>.optional (within_vec within_i32)
    |>.shape

theorem within_runAsPolicy {n : ℕ} : RunAsPolicy.shape.Within (n + 1) :=
  (Record.Within.nil RunAsPolicy.mk)
    |>.required within_string
    |>.shape

theorem within_appStop {n : ℕ} : AppStop.shape.Within (n + 1) :=
  (Record.Within.nil AppStop.mk)
    |>.optional within_string
    |>.optional within_i32
    |>.shape

theorem within_appResources {n : ℕ} : AppResources.shape.Within (n + 1) :=
  (Record.Within.nil AppResources.mk)
    |>.optional within_i64
    |>.optional within_i32
    |>.optional within_i32
    |>.shape

theorem within_appWatch {n : ℕ} : AppWatch.shape.Within (n + 2) :=
  (Record.Within.nil AppWatch.mk)
    |>.required within_bool
    |>.optional (within_vec within_string)
    |>.shape

theorem within_appSpec {n : ℕ} : AppSpec.shape.Within (n + 3) :=
  (Record.Within.nil AppSpec.mk)
    |>.required within_i32
    |>.required within_string
    |>.required within_string
    |>.optional within_string
    |>.required within_appExec
    |>.optional within_string
    |>.optional within_btreeMap
    |>.optional within_string
    |>.optional within_appLogs
    |>.optional within_appRestart
    |>.optional within_string
    |>.optional within_runAsPolicy
    |>.optional within_appStop
    |>.optional within_appResources
    |>.optional within_appWatch
    |>.optional within_string
    |>.flag
    |>.shape

variable {reader} {s : AppSpec}

theorem unmarshalSpec_marshalIndent (hs : AppSpec.shape.Valid s) :
    unmarshalSpec reader (marshalIndent AppSpec.shape s) = .ok s := by
  rw [unmarshalSpec, marshalIndent, reader.parse_pretty _ (within_appSpec s hs)]
  simp only [AppSpec.shape.decode_encode hs]

theorem marshalIndent_ne_nil (hs : AppSpec.shape.Valid s) : marshalIndent AppSpec.shape s ≠ [] :=
  (Json.closed_pretty (within_appSpec (n := 0) s hs).exact 0).1

theorem unmarshalSpec_of_beginning (hs : AppSpec.shape.Valid s) {b : List UInt8}
    (hb : b <+: marshalIndent AppSpec.shape s) (hne : b ≠ marshalIndent AppSpec.shape s) :
    unmarshalSpec reader b = .error .malformed := by
  have hexact : Json.Exact (.obj (AppSpec.record.members s)) := (within_appSpec (n := 0) s hs).exact
  have hparse : reader.parse b = none := by
    cases hj : reader.parse b with
    | none => rfl
    | some j =>
        exact absurd (reader.closed_of_parse b j hj)
          (Json.not_closed_of_prefix_pretty hexact hb hne)
  rw [unmarshalSpec, hparse]

/-! ### What a crash leaves -/

namespace Save

variable (w : Save s)

theorem foldl_append (ps : List (List UInt8)) (f : DiskFile) :
    (ps.map FileOp.append).foldl FileOp.apply (some f) =
      some { f with bytes := f.bytes ++ ps.flatten } := by
  induction ps generalizing f with
  | nil => simp
  | cons p ps ih =>
      rw [List.map_cons, List.foldl_cons, List.flatten_cons, ← List.append_assoc]
      exact ih _

theorem bytes_crashed (k : ℕ) (f : Option DiskFile) :
    ∃ mode, (w.writeAtomic.take (k + 1)).foldl FileOp.apply f =
      some { bytes := w.written (k + 1), mode := mode } := by
  obtain ⟨mode, htrunc⟩ : ∃ mode, FileOp.apply f (.truncate w.created) =
      some { bytes := [], mode := mode } := by
    cases f with
    | none => exact ⟨_, rfl⟩
    | some f => exact ⟨_, rfl⟩
  rw [writeAtomic, List.take_succ_cons, List.foldl_cons, htrunc, List.take_append,
    List.foldl_append, List.map_take.symm, foldl_append, List.nil_append]
  cases k - (w.pieces.map FileOp.append).length with
  | zero => exact ⟨mode, rfl⟩
  | succ i =>
      rw [List.take_succ_cons, List.take_nil]
      exact ⟨0o600, rfl⟩

theorem isPrefix_written (k : ℕ) : w.written k <+: marshalIndent AppSpec.shape s := by
  rw [← w.flatten_pieces, written]
  refine ⟨(w.pieces.drop (k - 1)).flatten, ?_⟩
  rw [← List.flatten_append, List.take_append_drop]

end Save

variable (reader) in
/-- A file in the terms of `SpecStore`. -/
def SpecFile.ofBytes (b : List UInt8) : SpecFile :=
  match unmarshalSpec reader b with
  | .ok s => .spec s
  | .error _ => .malformed

variable (reader) in
def fileAt (files : SpecFiles) (id : String) : Option SpecFile :=
  (files (specFileName id)).map fun f => .ofBytes reader f.bytes

variable {files : SpecFiles} {id : String}

theorem load_ok_iff {t : AppSpec} : loadSpecProtocol reader files id = .ok t ↔
    ∃ s, fileAt reader files id = some (.spec s) ∧ t = s.withNamespace := by
  unfold loadSpecProtocol fileAt SpecFile.ofBytes
  cases files (specFileName id) with
  | none => simp
  | some f =>
      cases hu : unmarshalSpec reader f.bytes with
      | error e => simp [hu]
      | ok s => simp [hu, eq_comm]

/-- **What a crash leaves**: the file from before, the new spec, or a file that does not parse. -/
theorem fileAt_crashed (hs : AppSpec.shape.Valid s) (w : Save s) (k : ℕ) :
    fileAt reader (w.crashed k files id) id =
      if k = 0 then fileAt reader files id
      else if w.written k = marshalIndent AppSpec.shape s then some (.spec s)
      else some .malformed := by
  cases k with
  | zero =>
      rw [if_pos rfl, Save.crashed, List.take_zero, List.foldl_nil, Function.update_eq_self]
  | succ k =>
      obtain ⟨mode, hmode⟩ := w.bytes_crashed k (files (specFileName id))
      rw [if_neg (Nat.succ_ne_zero k), fileAt, Save.crashed, Function.update_self, hmode,
        Option.map_some, SpecFile.ofBytes]
      split_ifs with hall
      · simp only [hall, unmarshalSpec_marshalIndent hs]
      · simp only [unmarshalSpec_of_beginning hs (w.isPrefix_written (k + 1)) hall]

theorem load_of_torn (hs : AppSpec.shape.Valid s) (w : Save s) {k : ℕ} (hk : k ≠ 0)
    (hpart : w.written k ≠ marshalIndent AppSpec.shape s) :
    loadSpecProtocol reader (w.crashed k files id) id = .error (.json .malformed) := by
  obtain ⟨i, rfl⟩ := Nat.exists_eq_succ_of_ne_zero hk
  obtain ⟨mode, hmode⟩ := w.bytes_crashed i (files (specFileName id))
  rw [loadSpecProtocol, Save.crashed, Function.update_self, hmode]
  simp only [unmarshalSpec_of_beginning hs (w.isPrefix_written (i + 1)) hpart]

theorem fileAt_crashed_ne (w : Save s) (k : ℕ) {id' : String} (h : id' ≠ id) :
    fileAt reader (w.crashed k files id) id' = fileAt reader files id' := by
  have hname : specFileName id' ≠ specFileName id := by
    simpa [specFileName] using h
  rw [fileAt, Save.crashed, Function.update_of_ne hname, fileAt]

/-- **Crashes that lose nothing.**  After a crash during a save, the old spec or the new one can be
loaded exactly if the file had not been truncated yet, or all of the text was written. -/
theorem load_after_crash_iff (reader : Json.ByteReader) (files : SpecFiles) (id : String)
    (old new : AppSpec) (hnew : AppSpec.shape.Valid new)
    (hold : loadSpecProtocol reader files id = .ok old) (w : Save new) (k : ℕ) :
    (loadSpecProtocol reader (w.crashed k files id) id = .ok old ∨
      loadSpecProtocol reader (w.crashed k files id) id = .ok new.withNamespace) ↔
      k = 0 ∨ w.written k = marshalIndent AppSpec.shape new := by
  by_cases h0 : k = 0
  · refine iff_of_true (.inl ?_) (.inl h0)
    rw [load_ok_iff, fileAt_crashed hnew, if_pos h0, ← load_ok_iff]
    exact hold
  · by_cases hall : w.written k = marshalIndent AppSpec.shape new
    · refine iff_of_true (.inr ?_) (.inr hall)
      rw [load_ok_iff, fileAt_crashed hnew, if_neg h0, if_pos hall]
      exact ⟨new, rfl, rfl⟩
    · rw [load_of_torn hnew w h0 hall]
      exact iff_of_false (not_or.mpr ⟨nofun, nofun⟩) (not_or.mpr ⟨h0, hall⟩)

/-- The directory with one spec in it. -/
def savedFiles (id : String) (s : AppSpec) : SpecFiles :=
  Function.update (fun _ => none) (specFileName id)
    (some { bytes := marshalIndent AppSpec.shape s, mode := 0o600 })

theorem load_savedFiles (hs : AppSpec.shape.Valid s) :
    loadSpecProtocol reader (savedFiles id s) id = .ok s.withNamespace := by
  rw [loadSpecProtocol, savedFiles, Function.update_self]
  simp only [unmarshalSpec_marshalIndent hs]

/-- The text is taken in one piece. -/
def Save.whole (s : AppSpec) : Save s where
  created := 0o644
  pieces := [marshalIndent AppSpec.shape s]
  flatten_pieces := List.append_nil _

def webSpec (disabled : Bool) : AppSpec := { plainSpec "web" with disabled := disabled }

theorem valid_webSpec (disabled : Bool) : AppSpec.shape.Valid (webSpec disabled) := by
  change AppSpec.record.Valid (webSpec disabled)
  simp [AppSpec.record, webSpec, plainSpec, Serde.string, i32, signed, AppExec.shape,
    Record.shape, AppExec.record, vec]

/-- A crash before the permissions are set. -/
theorem load_after_crash_web :
    loadSpecProtocol Json.indented
          ((Save.whole (webSpec true)).crashed 2 (savedFiles "web" (webSpec false)) "web") "web" =
        .ok (webSpec false).withNamespace ∨
      loadSpecProtocol Json.indented
          ((Save.whole (webSpec true)).crashed 2 (savedFiles "web" (webSpec false)) "web") "web" =
        .ok (webSpec true).withNamespace :=
  (load_after_crash_iff Json.indented (savedFiles "web" (webSpec false)) "web" _ (webSpec true)
    (valid_webSpec true) (load_savedFiles (valid_webSpec false)) (Save.whole (webSpec true)) 2).mpr
    (.inr (List.append_nil _))

/-- A crash between the truncation and the first piece: neither spec can be loaded. -/
theorem crash_after_truncate_loses :
    loadSpecProtocol Json.indented (savedFiles "web" (webSpec false)) "web" =
        .ok (webSpec false).withNamespace ∧
      loadSpecProtocol Json.indented
          ((Save.whole (webSpec true)).crashed 1 (savedFiles "web" (webSpec false)) "web") "web" =
        .error (.json .malformed) ∧
      ∀ s, loadSpecProtocol Json.indented
          ((Save.whole (webSpec true)).crashed 1 (savedFiles "web" (webSpec false)) "web") "web" ≠
        .ok s := by
  have htorn : loadSpecProtocol Json.indented
      ((Save.whole (webSpec true)).crashed 1 (savedFiles "web" (webSpec false)) "web") "web" =
        .error (.json .malformed) :=
    load_of_torn (valid_webSpec true) _ one_ne_zero
      (marshalIndent_ne_nil (valid_webSpec true)).symm
  refine ⟨load_savedFiles (valid_webSpec false), htorn, fun s hs => ?_⟩
  cases htorn.symm.trans hs

/-! ### The spec directory of the daemon -/

/-- The directory that the daemon's model works on, as it is on disk. -/
def Represents (reader : Json.ByteReader) (files : SpecFiles) (dir : SpecDir) : Prop :=
  ∀ id, dir.file id = fileAt reader files id

/-- How a save that is broken off ends. -/
def Save.outcome (w : Save s) (e : String) (k : ℕ) : WriteResult :=
  if k = 0 then .failed e
  else if w.written k = marshalIndent AppSpec.shape s then .done
  else .torn e

section Represents

variable {dir : SpecDir} {h : Host}

theorem Represents.loadSpec (hr : Represents reader files dir) (hread : h.specReadErr id = none)
    {t : AppSpec} : dir.loadSpec h id = .ok t ↔ loadSpecProtocol reader files id = .ok t := by
  rw [load_ok_iff, ← hr id]
  constructor
  · exact SpecDir.readSpec_ok
  · rintro ⟨s, hs, rfl⟩
    exact SpecDir.readSpec_of_file hs hread

/-- A save that is broken off is one of the three outcomes of `SpecDir.saveSpec`. -/
theorem Represents.crashed (hr : Represents reader files dir) (hs : AppSpec.shape.Valid s)
    (w : Save s) (e : String) (k : ℕ) (hw : h.specWrite id s = w.outcome e k) :
    Represents reader (w.crashed k files id) (dir.saveSpec h id s).1 := by
  intro id'
  by_cases hid : id' = id
  · subst hid
    rw [fileAt_crashed hs, SpecDir.saveSpec, hw, Save.outcome]
    split_ifs
    · exact hr id'
    · exact AList.lookup_insert dir
    · exact AList.lookup_insert dir
  · rw [fileAt_crashed_ne w k hid, ← hr id', SpecDir.saveSpec]
    split
    · exact AList.lookup_insert_ne hid
    · rfl
    · exact AList.lookup_insert_ne hid

/-- A torn file is skipped when the daemon starts, and so is the process it was for. -/
theorem Represents.loadAll_of_torn {w : Save s} {k : ℕ}
    (hr : Represents reader (w.crashed k files id) dir) (hkeyed : dir.Keyed)
    (hs : AppSpec.shape.Valid s) (hk : k ≠ 0)
    (hpart : w.written k ≠ marshalIndent AppSpec.shape s) {specs : List AppSpec}
    (hl : dir.loadAll h = .ok specs) : id ∉ specs.map AppSpec.id := by
  intro hmem
  obtain ⟨t, ht, rfl⟩ := List.mem_map.mp hmem
  obtain ⟨id', hread⟩ := (SpecDir.mem_loadAll hl).mp ht
  obtain ⟨u, hu, rfl⟩ := SpecDir.readSpec_ok hread
  obtain rfl : u.id = id' := hkeyed id' u hu
  rw [AppSpec.withNamespace_id] at hr
  rw [hr u.id, fileAt_crashed hs, if_neg hk, if_neg hpart] at hu
  cases hu

end Represents

end Unitpm
