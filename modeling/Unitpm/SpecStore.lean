import Unitpm.Host

/-! # The spec directory

`internal/spec`: one JSON file per id.  A file is what it decodes to: a spec, or nothing that
parses.  A save may fail before it touches the file, or half way, with the file truncated; the
text of an error is the `Display` of the `SpecError`. -/

namespace Unitpm

/-- A file of the spec directory. -/
inductive SpecFile where
  | spec (s : AppSpec)
  | malformed
deriving DecidableEq

/-- The files `<id>.json`, by id. -/
abbrev SpecDir : Type := AList fun _ : String => SpecFile

/-- Every save succeeds. -/
def Host.Saves (h : Host) : Prop := ∀ id s, h.specWrite id s = .done

/-- The spec directory can be listed and every file of it read. -/
def Host.Reads (h : Host) : Prop := h.specDirErr = none ∧ ∀ id, h.specReadErr id = none

namespace SpecDir

/-- `save_spec_protocol`. -/
def saveSpec (h : Host) (dir : SpecDir) (id : String) (s : AppSpec) :
    SpecDir × Except String Unit :=
  match h.specWrite id s with
  | .done => (dir.insert id (.spec s), .ok ())
  | .failed e => (dir, .error e)
  | .torn e => (dir.insert id .malformed, .error e)

/-- The parsed content of one file, with its namespace filled in. -/
def readSpec (h : Host) (dir : SpecDir) (id : String) : Except String AppSpec :=
  match h.specReadErr id with
  | some e => .error e
  | none =>
      match dir.lookup id with
      | none => .error "io error: No such file or directory (os error 2)"
      -- the error of `jsonx` within that of `spec`
      | some .malformed => .error ("json error: " ++ ("json error: " ++ h.specJsonErr id))
      | some (.spec s) => .ok s.withNamespace

/-- `load_spec_protocol`. -/
def loadSpec (h : Host) (dir : SpecDir) (id : String) : Except String AppSpec := dir.readSpec h id

/-- `delete_spec_protocol`; a missing file is not an error. -/
def deleteSpec (h : Host) (dir : SpecDir) (id : String) : SpecDir × Except String Unit :=
  match h.specRemoveErr id with
  | some e => (dir, .error e)
  | none => (dir.erase id, .ok ())

/-- `load_all_protocol`: files that cannot be read or parsed are skipped. -/
def loadAll (h : Host) (dir : SpecDir) : Except String (List AppSpec) :=
  match h.specDirErr with
  | some e => .error e
  | none => .ok ((h.dirOrder dir.keys).filterMap fun id => (dir.readSpec h id).toOption)

/-! ### What is in the directory afterwards -/

/-- The file of an id. -/
def file (dir : SpecDir) (id : String) : Option SpecFile := dir.lookup id

/-- Files lie under the ids of their specs, as every caller of `save_spec_protocol` has it. -/
def Keyed (dir : SpecDir) : Prop := ∀ id t, dir.file id = some (.spec t) → t.id = id

theorem file_saveSpec {h : Host} (hw : h.Saves) (dir : SpecDir) (id : String) (s : AppSpec) :
    (dir.saveSpec h id s).1.file = Function.update dir.file id (some (.spec s)) := by
  funext k
  simp only [saveSpec, hw id s, file]
  by_cases hk : k = id
  · rw [hk, AList.lookup_insert, Function.update_self]
  · rw [AList.lookup_insert_ne hk, Function.update_of_ne hk]
    rfl

theorem file_deleteSpec {h : Host} {id : String} (hr : h.specRemoveErr id = none)
    (dir : SpecDir) : (dir.deleteSpec h id).1.file = Function.update dir.file id none := by
  funext k
  simp only [deleteSpec, hr, file]
  by_cases hk : k = id
  · rw [hk, AList.lookup_erase, Function.update_self]
  · rw [AList.lookup_erase_ne hk, Function.update_of_ne hk]
    rfl

theorem readSpec_ok {h : Host} {dir : SpecDir} {id : String} {s : AppSpec}
    (hl : dir.readSpec h id = .ok s) : ∃ t, dir.file id = some (.spec t) ∧ s = t.withNamespace := by
  unfold readSpec at hl
  split at hl
  · cases hl
  · split at hl
    · cases hl
    · cases hl
    · rename_i t ht
      exact ⟨t, ht, (Except.ok.inj hl).symm⟩

theorem readSpec_of_file {h : Host} {dir : SpecDir} {id : String} {t : AppSpec}
    (hf : dir.file id = some (.spec t)) (hr : h.specReadErr id = none) :
    dir.readSpec h id = .ok t.withNamespace := by
  rw [readSpec, hr, show dir.lookup id = _ from hf]

theorem mem_loadAll {h : Host} {dir : SpecDir} {specs : List AppSpec} {s : AppSpec}
    (hl : dir.loadAll h = .ok specs) :
    s ∈ specs ↔ ∃ id, dir.readSpec h id = .ok s := by
  unfold loadAll at hl
  split at hl
  · cases hl
  · obtain rfl := Except.ok.inj hl
    rw [List.mem_filterMap]
    constructor
    · rintro ⟨id, -, hs⟩
      refine ⟨id, ?_⟩
      cases hr : dir.readSpec h id with
      | error e => rw [hr] at hs; cases hs
      | ok t =>
          rw [hr] at hs
          rw [show t = s from Option.some.inj hs]
    · rintro ⟨id, hs⟩
      obtain ⟨t, ht, -⟩ := readSpec_ok hs
      refine ⟨id, (h.dirOrder_perm _).mem_iff.mpr ?_, by rw [hs]; rfl⟩
      exact AList.mem_keys.mp (AList.lookup_isSome.mp (by rw [show dir.lookup id = _ from ht]; rfl))

theorem loadAll_ids_nodup {h : Host} {dir : SpecDir} {specs : List AppSpec} (hk : dir.Keyed)
    (hl : dir.loadAll h = .ok specs) : (specs.map AppSpec.id).Nodup := by
  unfold loadAll at hl
  split at hl
  · cases hl
  · obtain rfl := Except.ok.inj hl
    rw [List.map_filterMap]
    have hid : ∀ k i, i ∈ ((dir.readSpec h k).toOption.map AppSpec.id) → i = k := by
      intro k i hi
      cases hr : dir.readSpec h k with
      | error e => rw [hr] at hi; cases hi
      | ok s =>
          rw [hr] at hi
          obtain ⟨t, ht, rfl⟩ := readSpec_ok hr
          exact (Option.some.inj hi).symm.trans (hk k t ht)
    apply List.Nodup.filterMap (fun k k' i hi hi' => (hid k i hi).symm.trans (hid k' i hi'))
    exact (h.dirOrder_perm _).nodup_iff.mpr dir.keys_nodup

end SpecDir

end Unitpm
