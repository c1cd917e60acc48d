import Unitpm.Lib.Fs
import Unitpm.Lib.Path
import Unitpm.Lib.Str

/-! # Paths as text and as segments

The file names of a Unix file system and the way the kernel reads a path: `Path.ofText` splits it
at the slashes.  `locationText` is the text of a location, as `fs::canonicalize` returns it, and
`ofComponents` the path that `collect` makes of components.

The kernel takes a path with one more name apart as the text does (`exists_segs_join`), so the text
of a location leads to that location (`canonicalize_locationText`). -/

namespace Fs

open Rust.Path

/-- A name a directory can hold. -/
def ValidName (s : OsStr) : Prop := s ≠ [] ∧ s ≠ [dot] ∧ s ≠ [dot, dot] ∧ sep ∉ s

instance (s : OsStr) : Decidable (ValidName s) := inferInstanceAs (Decidable (_ ∧ _ ∧ _ ∧ _))

abbrev FileName : Type := { s : OsStr // ValidName s }

/-- A name that is text. -/
def FileName.ofString (s : String) (hs : ValidName (OsStr.ofString s) := by decide +kernel) :
    FileName := ⟨OsStr.ofString s, hs⟩

/-- A piece between two slashes. -/
def Seg.ofText (s : OsStr) : Seg FileName :=
  if h : ValidName s then .name ⟨s, h⟩
  else if s = [] then .slash
  else if s = [PathChar.dot, PathChar.dot] then .up
  else .dot

/-- The path the kernel reads. -/
def Path.ofText (p : OsStr) : Path FileName where
  absolute := isAbsolute p
  segs := if p = [] then [] else (p.splitOn sep).map Seg.ofText

/-- The names in a path. -/
def location (p : String) : List FileName :=
  (Path.ofText (OsStr.ofString p)).segs.filterMap fun
    | .name n => some n
    | _ => none

/-- The text of a location. -/
def locationText (l : List FileName) : OsStr := l.foldl (fun p n => join p n.1) [sep]

/-- `Component::as_os_str`. -/
def componentText : Component OsChar → OsStr
  | .rootDir => [sep]
  | .curDir => [dot]
  | .parentDir => [dot, dot]
  | .normal s => s

/-- `components.collect::<PathBuf>()`. -/
def ofComponents (cs : List (Component OsChar)) : OsStr :=
  cs.foldl (fun p c => join p (componentText c)) []

/-- `Path::parent`: the path without its last component. -/
def parent (p : OsStr) : Option OsStr :=
  match (components p).getLast? with
  | none => none
  | some .rootDir => none
  | some _ => some (ofComponents (components p).dropLast)

/-- The components of a location. -/
def nameComponents (l : List FileName) : List (Component OsChar) := l.map fun n => .normal n.1

/-! ### Names -/

theorem FileName.isAbsolute_eq (n : FileName) : isAbsolute n.1 = false := by
  obtain ⟨s, h1, -, -, h4⟩ := n
  cases s with
  | nil => exact absurd rfl h1
  | cons c s =>
      have hc : c ≠ sep := fun h => h4 (by simp [h])
      simp [isAbsolute, hc]

theorem FileName.splitOn_eq (n : FileName) : n.1.splitOn sep = [n.1] :=
  List.splitOn_eq_singleton n.2.2.2.2

theorem FileName.segment_eq (n : FileName) : Rust.Path.segment n.1 = some (.normal n.1) := by
  obtain ⟨s, h1, h2, h3, -⟩ := n
  simp [Rust.Path.segment, h1, h2, h3]

theorem Seg.ofText_name (n : FileName) : Seg.ofText n.1 = .name n := by
  simp [Seg.ofText, n.2]

/-! ### Components -/

theorem components_of_isAbsolute {p : OsStr} (hp : isAbsolute p = true) :
    components p = .rootDir :: (p.splitOn sep).filterMap Rust.Path.segment := by
  simp [components, hp]

/-- A component that can stand after others. -/
def Later (c : Component OsChar) : Prop := c = .parentDir ∨ ∃ n : FileName, c = .normal n.1

theorem Later.text {c : Component OsChar} (hc : Later c) :
    isAbsolute (componentText c) = false ∧
      ((componentText c).splitOn sep).filterMap Rust.Path.segment = [c] := by
  rcases hc with rfl | ⟨n, rfl⟩
  · exact ⟨by decide, by decide⟩
  · refine ⟨n.isAbsolute_eq, ?_⟩
    rw [componentText, n.splitOn_eq]
    simp [n.segment_eq]

theorem components_join {p : OsStr} (hp : isAbsolute p = true) {c : Component OsChar}
    (hc : Later c) : components (join p (componentText c)) = components p ++ [c] := by
  obtain ⟨h1, h2⟩ := hc.text
  rw [components_of_isAbsolute (by rw [isAbsolute_join h1, hp]), components_of_isAbsolute hp,
    segments_join h1, h2]
  rfl

/-- The first segment of a path stays the first when a name follows. -/
theorem head?_splitOn_join (p : OsStr) (n : FileName) :
    ((join p n.1).splitOn sep).head? = some [dot] ↔ (p.splitOn sep).head? = some [dot] := by
  have hne : ∀ l : OsStr, l.splitOn sep ≠ [] := fun l => List.splitOn_ne_nil _ _
  unfold join
  rw [if_neg (by simp [n.isAbsolute_eq])]
  split
  · rename_i h
    rcases h with rfl | h
    · rw [List.nil_append, n.splitOn_eq]
      simp [n.2.2.1]
    · obtain ⟨a, rfl⟩ := List.getLast?_eq_some_iff.mp h
      rw [List.append_assoc, List.singleton_append, List.splitOn_append_cons_self,
        List.splitOn_append_cons_self, List.head?_append_of_ne_nil _ (hne a),
        List.head?_append_of_ne_nil _ (hne a)]
  · rw [List.splitOn_append_cons_self, List.head?_append_of_ne_nil _ (hne p)]

theorem components_join_fileName (p : OsStr) (n : FileName) :
    components (join p n.1) = components p ++ [.normal n.1] := by
  have hsegs : ((join p n.1).splitOn sep).filterMap Rust.Path.segment =
      (p.splitOn sep).filterMap Rust.Path.segment ++ [.normal n.1] := by
    rw [segments_join n.isAbsolute_eq, n.splitOn_eq]
    simp [n.segment_eq]
  simp only [components, hsegs, isAbsolute_join n.isAbsolute_eq, head?_splitOn_join,
    List.append_assoc]

theorem isAbsolute_locationText (l : List FileName) : isAbsolute (locationText l) = true := by
  induction l using List.reverseRecOn with
  | nil => rfl
  | append_singleton l n ih =>
      rw [locationText, List.foldl_append]
      exact (isAbsolute_join n.isAbsolute_eq).trans ih

theorem components_locationText (l : List FileName) :
    components (locationText l) = .rootDir :: nameComponents l := by
  induction l using List.reverseRecOn with
  | nil => rfl
  | append_singleton l n ih =>
      have hj : locationText (l ++ [n]) = join (locationText l) n.1 := by simp [locationText]
      rw [hj, components_join_fileName, ih]
      simp [nameComponents]

theorem ofComponents_location (l : List FileName) :
    ofComponents (.rootDir :: nameComponents l) = locationText l := by
  rw [ofComponents, List.foldl_cons, nameComponents, List.foldl_map]
  rfl

/-- The components after the root: `..` or a name. -/
theorem later_of_mem {p : OsStr} {c : Component OsChar}
    (hc : c ∈ (p.splitOn sep).filterMap Rust.Path.segment) : Later c := by
  obtain ⟨s, hs, hseg⟩ := List.mem_filterMap.mp hc
  unfold Rust.Path.segment at hseg
  split at hseg
  · cases hseg
  · rename_i h0
    rw [not_or] at h0
    split at hseg
    · exact .inl (Option.some.inj hseg).symm
    · rename_i h2
      exact .inr ⟨⟨s, h0.1, h0.2, h2, Rust.Str.not_mem_of_mem_splitOn hs⟩,
        (Option.some.inj hseg).symm⟩

theorem exists_nameComponents {cs : List (Component OsChar)}
    (hcs : ∀ c ∈ cs, ∃ n : FileName, c = .normal n.1) : ∃ l, cs = nameComponents l := by
  induction cs with
  | nil => exact ⟨[], rfl⟩
  | cons c cs ih =>
      obtain ⟨⟨n, rfl⟩, hcs'⟩ := List.forall_mem_cons.mp hcs
      obtain ⟨l, rfl⟩ := ih hcs'
      exact ⟨n :: l, rfl⟩

/-- An absolute path is a root and, where it has no `..`, names. -/
theorem exists_names_of_append {p : OsStr} (root : OsStr) {rel : List (Component OsChar)}
    (hp : isAbsolute p = true) (hr : components root ≠ [])
    (he : components p = components root ++ rel) (hup : .parentDir ∉ rel) :
    ∃ l, rel = nameComponents l := by
  apply exists_nameComponents
  intro c hc
  rw [components_of_isAbsolute hp] at he
  obtain ⟨d, ds, hds⟩ := List.exists_cons_of_ne_nil hr
  rw [hds, List.cons_append] at he
  have hm : c ∈ (p.splitOn sep).filterMap Rust.Path.segment := by
    rw [(List.cons.inj he).2]
    exact List.mem_append_right _ hc
  rcases later_of_mem hm with rfl | h
  · exact absurd hc hup
  · exact h

/-! ### Collecting components -/

theorem isAbsolute_foldl_join {cs : List (Component OsChar)}
    (hcs : ∀ c ∈ cs, isAbsolute (componentText c) = false) (p : OsStr) :
    isAbsolute (cs.foldl (fun p c => join p (componentText c)) p) = isAbsolute p := by
  induction cs generalizing p with
  | nil => rfl
  | cons c cs ih =>
      rw [List.foldl_cons, ih (fun d hd => hcs d (by simp [hd])), isAbsolute_join (hcs c (by simp))]

theorem isAbsolute_ofComponents (p : OsStr) :
    isAbsolute (ofComponents (components p)) = isAbsolute p := by
  have hseg : ∀ c ∈ (p.splitOn sep).filterMap Rust.Path.segment,
      isAbsolute (componentText c) = false :=
    fun c hc => (later_of_mem hc).text.1
  by_cases hp : isAbsolute p = true
  · rw [components_of_isAbsolute hp, ofComponents, List.foldl_cons, isAbsolute_foldl_join hseg, hp]
    rfl
  · rw [Bool.not_eq_true] at hp
    rw [ofComponents, isAbsolute_foldl_join, hp]
    · rfl
    · intro c hc
      simp only [components, hp, Bool.false_eq_true, if_false, List.mem_append] at hc
      rcases hc with hc | hc
      · split at hc
        · obtain rfl := List.mem_singleton.mp hc
          decide
        · cases hc
      · exact hseg c hc

theorem components_ofComponents {p : OsStr} (hp : isAbsolute p = true) :
    components (ofComponents (components p)) = components p := by
  have h : ∀ cs : List (Component OsChar), (∀ c ∈ cs, Later c) →
      isAbsolute (cs.foldl (fun p c => join p (componentText c)) [sep]) = true ∧
      components (cs.foldl (fun p c => join p (componentText c)) [sep]) = .rootDir :: cs := by
    intro cs hcs
    induction cs using List.reverseRecOn with
    | nil => exact ⟨rfl, rfl⟩
    | append_singleton cs c ih =>
        obtain ⟨h1, h2⟩ := ih fun d hd => hcs d (by simp [hd])
        have hc := hcs c (by simp)
        rw [List.foldl_append]
        refine ⟨(isAbsolute_join hc.text.1).trans h1, ?_⟩
        rw [List.foldl_cons, List.foldl_nil, components_join h1 hc, h2]
        rfl
  rw [components_of_isAbsolute hp, ofComponents, List.foldl_cons]
  exact (h _ fun c hc => later_of_mem hc).2

theorem isAbsolute_of_components {p : OsStr} {cs : List (Component OsChar)}
    (h : components p = .rootDir :: cs) : isAbsolute p = true := by
  by_contra hp
  have hm : .rootDir ∈ components p := by rw [h]; exact List.mem_cons_self
  exact rootDir_not_mem_components (Bool.not_eq_true _ ▸ hp) hm

/-! ### Walks -/

variable {t : Tree FileName} {fs : FileSystem FileName} {p : OsStr} {n : FileName}

theorem segs_ofText (hp : p ≠ []) : (Path.ofText p).segs = (p.splitOn sep).map Seg.ofText :=
  if_neg hp

theorem join_name_ne_nil (hp : p ≠ []) (n : FileName) : join p n.1 ≠ [] := by
  rw [join, if_neg (by simp [n.isAbsolute_eq])]
  split <;> simp [hp]

theorem segs_join_name (hp : p ≠ []) (n : FileName) :
    ∃ a, (Path.ofText (join p n.1)).segs = a ++ [.name n] ∧
      ((Path.ofText p).segs = a ∨ (Path.ofText p).segs = a ++ [.slash]) := by
  rw [segs_ofText (join_name_ne_nil hp n), segs_ofText hp]
  unfold join
  rw [if_neg (by simp [n.isAbsolute_eq])]
  split
  · rename_i h
    rcases h with h | h
    · exact absurd h hp
    · obtain ⟨a, rfl⟩ := List.getLast?_eq_some_iff.mp h
      have hnil : Seg.ofText [] = .slash := by decide
      refine ⟨(a.splitOn sep).map Seg.ofText, ?_, .inr ?_⟩
      · rw [List.append_assoc, List.singleton_append, List.splitOn_append_cons_self, n.splitOn_eq]
        simp [Seg.ofText_name]
      · rw [List.splitOn_append_cons_self]
        simp [hnil]
  · refine ⟨(p.splitOn sep).map Seg.ofText, ?_, .inl rfl⟩
    rw [List.splitOn_append_cons_self, n.splitOn_eq]
    simp [Seg.ofText_name]

/-- Where the last name of `p/n` is, and what it stands for. -/
def locate (fs : FileSystem FileName) (p : OsStr) (n : FileName) :
    Except Errno (List FileName × ℕ × Node FileName) :=
  fs.tree.locate maxLinks [] (Path.ofText p).segs n

theorem ne_nil_of_isAbsolute (hp : isAbsolute p = true) : p ≠ [] := by
  rintro rfl
  cases hp

theorem exists_segs_join (fs : FileSystem FileName) (hp : isAbsolute p = true) (n : FileName) :
    ∃ a, (Path.ofText (join p n.1)).segs = a ++ [.name n] ∧
      fs.tree.locate maxLinks [] a n = locate fs p n := by
  obtain ⟨a, ha, hor⟩ := segs_join_name (ne_nil_of_isAbsolute hp) n
  refine ⟨a, ha, ?_⟩
  unfold locate
  rcases hor with h | h
  · rw [h]
  · rw [h, Tree.locate_slash]

theorem absolute_join (hp : isAbsolute p = true) (n : FileName) :
    (Path.ofText (join p n.1)).absolute = true := (isAbsolute_join n.isAbsolute_eq).trans hp

theorem symlinkMetadata_join (hp : isAbsolute p = true) (n : FileName) :
    fs.symlinkMetadata (Path.ofText (join p n.1)) = (locate fs p n).map fun r => r.2.2 := by
  obtain ⟨a, ha, hl⟩ := exists_segs_join fs hp n
  rw [FileSystem.symlinkMetadata, ha, ← hl, Tree.locate]
  simp only [List.getLast?_concat, List.dropLast_concat, FileSystem.start, absolute_join hp,
    if_true]
  cases fs.tree.walk false maxLinks [] a with
  | error e => rfl
  | ok r =>
      simp only
      cases fs.tree.lookup r.1 n <;> rfl

theorem canonicalize_of_locate {dir : List FileName} {k : ℕ} {x : Node FileName}
    (hp : isAbsolute p = true) (hl : locate fs p n = .ok (dir, k, x)) :
    fs.canonicalize (Path.ofText p) = .ok dir := by
  rw [FileSystem.canonicalize_of_absolute (show (Path.ofText p).absolute = true from hp),
    (Tree.locate_ok.mp hl).1]
  rfl

/-- A path `p/n` that resolves has been located, and is where the name is unless that is a
link. -/
theorem locate_of_canonicalize {l : List FileName} (hp : isAbsolute p = true)
    (hl : fs.canonicalize (Path.ofText (join p n.1)) = .ok l) :
    ∃ dir k x, locate fs p n = .ok (dir, k, x) ∧ (x.isSymlink = false → l = dir ++ [n]) := by
  obtain ⟨a, ha, he⟩ := exists_segs_join fs hp n
  rw [FileSystem.canonicalize_of_absolute (absolute_join hp n), ha] at hl
  cases hw : fs.tree.walk false maxLinks [] (a ++ [.name n]) with
  | error e => rw [hw] at hl; cases hl
  | ok r =>
      rw [hw] at hl
      obtain rfl : r.1 = l := Except.ok.inj hl
      rw [← he]
      exact Tree.walk_concat_ok hw

theorem walk_locationText {l : List FileName} (hc : t.Clear l) (k : ℕ) :
    t.walk false k [] (Path.ofText (locationText l)).segs = .ok (l, k) := by
  induction l using List.reverseRecOn with
  | nil =>
      have h : t.isDir [] = true := t.root
      have hs : (Path.ofText (locationText [])).segs = [.slash, .slash] := by decide
      rw [hs, Tree.walk_slash, Tree.walk_slash, h]
      simp
  | append_singleton l n ih =>
      obtain ⟨x, hl, hx⟩ := hc l n List.prefix_rfl
      have hj : locationText (l ++ [n]) = join (locationText l) n.1 := by simp [locationText]
      obtain ⟨a, ha, hor⟩ := segs_join_name (ne_nil_of_isAbsolute (isAbsolute_locationText l)) n
      have hd : t.locate k [] a n = .ok (l, k, x) := by
        have h := Tree.locate_ok.mpr ⟨ih (hc.of_prefix (List.prefix_append _ _)), hl⟩
        rcases hor with e | e
        · rwa [e] at h
        · rwa [e, Tree.locate_slash] at h
      rw [hj, ha, Tree.walk_append, (Tree.locate_ok.mp hd).1]
      simp only
      rw [Tree.walk_name_node hl hx, Tree.walk_nil]

/-- **A canonical path is its own canonical path.** -/
theorem canonicalize_locationText {l : List FileName} (hc : fs.tree.Clear l) :
    fs.canonicalize (Path.ofText (locationText l)) = .ok l := by
  have hp : (Path.ofText (locationText l)).absolute = true := isAbsolute_locationText l
  rw [FileSystem.canonicalize_of_absolute hp, walk_locationText hc]
  rfl

/-! ### Cleaned paths -/

/-- The segment a component stands for. -/
def Seg.ofComponent : Component OsChar → Seg FileName
  | .rootDir => .slash
  | .curDir => .dot
  | .parentDir => .up
  | .normal s => Seg.ofText s

/-- `components` drops the pieces that lead nowhere. -/
theorem filter_moves_ofText {ss : List OsStr} (hss : ∀ s ∈ ss, sep ∉ s) :
    (ss.map Seg.ofText).filter Seg.moves =
      (ss.filterMap Rust.Path.segment).map Seg.ofComponent := by
  induction ss with
  | nil => rfl
  | cons s ss ih =>
      obtain ⟨hs, hss⟩ := List.forall_mem_cons.mp hss
      rw [List.map_cons, List.filter_cons, List.filterMap_cons, ih hss]
      by_cases hv : ValidName s
      · have hseg := FileName.segment_eq ⟨s, hv⟩
        have hname := Seg.ofText_name ⟨s, hv⟩
        rw [hname, hseg]
        simp [Seg.moves, Seg.ofComponent, hname]
      · by_cases h0 : s = []
        · rw [h0]
          rfl
        · by_cases h1 : s = [dot]
          · rw [h1]
            rfl
          · have h2 : s = [dot, dot] := by
              by_contra h2
              exact hv ⟨h0, h1, h2, hs⟩
            rw [h2]
            rfl

theorem filter_moves_segs (hp : p ≠ []) :
    (Path.ofText p).segs.filter Seg.moves =
      ((p.splitOn sep).filterMap Rust.Path.segment).map Seg.ofComponent := by
  rw [segs_ofText hp]
  exact filter_moves_ofText fun s hs => Rust.Str.not_mem_of_mem_splitOn hs

/-- A component after the first begins a new segment. -/
theorem segs_foldl_join {cs : List (Component OsChar)} (hcs : ∀ c ∈ cs, Later c) (hp : p ≠ [])
    (hlast : p.getLast? ≠ some sep) :
    (Path.ofText (cs.foldl (fun q c => join q (componentText c)) p)).segs =
      (Path.ofText p).segs ++ cs.map Seg.ofComponent := by
  induction cs generalizing p with
  | nil => simp
  | cons c cs ih =>
      obtain ⟨hc, hcs⟩ := List.forall_mem_cons.mp hcs
      obtain ⟨habs, hseg, hne, hend⟩ : isAbsolute (componentText c) = false ∧
          ((componentText c).splitOn sep).map Seg.ofText = [Seg.ofComponent c] ∧
          componentText c ≠ [] ∧ (componentText c).getLast? ≠ some sep := by
        rcases hc with rfl | ⟨n, rfl⟩
        · decide
        · refine ⟨n.isAbsolute_eq, ?_, n.2.1, fun h => n.2.2.2.2 (List.mem_of_getLast? h)⟩
          rw [componentText, n.splitOn_eq]
          rfl
      have hj : join p (componentText c) = p ++ sep :: componentText c := by
        rw [join, if_neg (by simp [habs]), if_neg (by simp [hp, hlast])]
      have hsegs : (Path.ofText (p ++ sep :: componentText c)).segs =
          (Path.ofText p).segs ++ [Seg.ofComponent c] := by
        rw [segs_ofText (by simp), segs_ofText hp, List.splitOn_append_cons_self, List.map_append,
          hseg]
      rw [List.foldl_cons, hj, ih hcs (by simp), hsegs, List.append_assoc, List.map_cons,
        List.singleton_append]
      rw [List.getLast?_append_cons, List.getLast?_cons_of_ne_nil hne]
      exact hend

/-- The cleaned form of an absolute path is walked along its components. -/
theorem walk_ofComponents {cs : List (Component OsChar)} (hcs : ∀ c ∈ cs, Later c) (k : ℕ) :
    t.walk false k [] (Path.ofText (ofComponents (.rootDir :: cs))).segs =
      t.walk false k [] (cs.map Seg.ofComponent) := by
  have hroot : t.isDir [] = true := t.root
  cases cs with
  | nil =>
      have hs : (Path.ofText (ofComponents [.rootDir])).segs = [.slash, .slash] := by decide
      rw [hs, Tree.walk_slash, Tree.walk_slash, hroot]
      simp
  | cons c cs =>
      obtain ⟨hc, hcs⟩ := List.forall_mem_cons.mp hcs
      obtain ⟨hseg, hend⟩ : (Path.ofText (join [sep] (componentText c))).segs =
          [.slash, Seg.ofComponent c] ∧
          (join [sep] (componentText c)).getLast? ≠ some sep := by
        rcases hc with rfl | ⟨n, rfl⟩
        · decide
        · have hj : join [sep] (componentText (.normal n.1)) = sep :: n.1 := by
            rw [join, componentText, if_neg (by simp [n.isAbsolute_eq]), if_pos (.inr rfl)]
            rfl
          rw [hj]
          constructor
          · rw [segs_ofText (by simp), show sep :: n.1 = [] ++ sep :: n.1 from rfl,
              List.splitOn_append_cons_self, n.splitOn_eq]
            rfl
          · rw [List.getLast?_cons_of_ne_nil n.2.1]
            exact fun h => n.2.2.2.2 (List.mem_of_getLast? h)
      have he : ofComponents (.rootDir :: c :: cs) =
          cs.foldl (fun q c => join q (componentText c)) (join [sep] (componentText c)) := rfl
      have hne : join [sep] (componentText c) ≠ [] := by
        intro h
        rw [h] at hseg
        cases hseg
      rw [he, segs_foldl_join hcs hne hend, hseg, List.cons_append, Tree.walk_slash, hroot]
      rfl

theorem segs_ofComponents {c : Component OsChar} {cs : List (Component OsChar)}
    (hc : c = .curDir ∨ Later c) (hcs : ∀ c ∈ cs, Later c) :
    (Path.ofText (ofComponents (c :: cs))).segs = (c :: cs).map Seg.ofComponent := by
  obtain ⟨hj, hseg, hend, hne⟩ : join [] (componentText c) = componentText c ∧
      (Path.ofText (componentText c)).segs = [Seg.ofComponent c] ∧
      (componentText c).getLast? ≠ some sep ∧ componentText c ≠ [] := by
    rcases hc with rfl | rfl | ⟨n, rfl⟩
    · decide
    · decide
    · refine ⟨?_, ?_, fun h => n.2.2.2.2 (List.mem_of_getLast? h), n.2.1⟩
      · rw [join, componentText, if_neg (by simp [n.isAbsolute_eq]), if_pos (.inl rfl)]
        rfl
      · rw [componentText, segs_ofText n.2.1, n.splitOn_eq]
        rfl
  have he : ofComponents (c :: cs) =
      cs.foldl (fun q c => join q (componentText c)) (join [] (componentText c)) := rfl
  rw [he, hj, segs_foldl_join hcs hne hend, hseg]
  rfl

theorem splitOn_of_relative (hp : isAbsolute p = false) (hne : p ≠ []) :
    ∃ s ss, p.splitOn sep = s :: ss ∧ s ≠ [] := by
  obtain ⟨c, q, rfl⟩ := List.exists_cons_of_ne_nil hne
  obtain ⟨s, ss, hss⟩ := List.exists_cons_of_ne_nil (List.splitOn_ne_nil sep q)
  have hc : (c == sep) = false := by simpa [isAbsolute] using hp
  refine ⟨c :: s, ss, ?_, by simp⟩
  rw [List.splitOn_cons_eq_if_modifyHead, hss, hc]
  rfl

/-- The components of a relative path: perhaps a leading `.`, then `..`s and names. -/
theorem components_of_relative (hp : isAbsolute p = false) (hne : p ≠ []) :
    ∃ c cs, components p = c :: cs ∧ (c = .curDir ∨ Later c) ∧ ∀ d ∈ cs, Later d := by
  obtain ⟨s, ss, hss, hs⟩ := splitOn_of_relative hp hne
  have hlater : ∀ d ∈ (p.splitOn sep).filterMap Rust.Path.segment, Later d :=
    fun d hd => later_of_mem hd
  by_cases hdot : s = [dot]
  · exact ⟨.curDir, _, by simp [components, hp, hss, hdot], .inl rfl, hlater⟩
  · have hseg : ∃ c, Rust.Path.segment s = some c := by
      unfold Rust.Path.segment
      rw [if_neg (by simp [hs, hdot])]
      split <;> exact ⟨_, rfl⟩
    obtain ⟨c, hc⟩ := hseg
    have hcomp : components p = c :: ss.filterMap Rust.Path.segment := by
      simp [components, hp, hss, hdot, hc]
    rw [hss, List.filterMap_cons_some hc] at hlater
    obtain ⟨h1, h2⟩ := List.forall_mem_cons.mp hlater
    exact ⟨c, _, hcomp, .inr h1, h2⟩

/-- A relative path that arrives does so along its components. -/
theorem walk_components {k : ℕ} {cur : List FileName} {r : List FileName × ℕ}
    (hp : isAbsolute p = false) (hne : p ≠ [])
    (hw : t.walk false k cur (Path.ofText p).segs = .ok r) :
    t.walk false k cur ((components p).map Seg.ofComponent) = .ok r := by
  obtain ⟨s, ss, hss, -⟩ := splitOn_of_relative hp hne
  by_cases hdot : s = [dot]
  · have hd : Seg.ofText [dot] = .dot := by decide
    have hsegs : (Path.ofText p).segs = .dot :: ss.map Seg.ofText := by
      rw [segs_ofText hne, hss, List.map_cons, hdot, hd]
    have hmoves := filter_moves_segs hne
    have hcomp : components p = .curDir :: (p.splitOn sep).filterMap Rust.Path.segment := by
      simp [components, hp, hss, hdot]
    rw [hsegs] at hw hmoves
    rw [hcomp, List.map_cons, ← hmoves, List.filter_cons_of_neg (by simp [Seg.moves]),
      Seg.ofComponent, Tree.walk_dot]
    rw [Tree.walk_dot] at hw
    split_ifs at hw with h1 h2
    rw [if_neg h1, if_neg h2]
    exact Tree.walk_filter_moves hw
  · have hcomp : components p = (p.splitOn sep).filterMap Rust.Path.segment := by
      simp [components, hp, hss, hdot]
    rw [hcomp, ← filter_moves_segs hne]
    exact Tree.walk_filter_moves hw

theorem walk_segments {k : ℕ} {r : List FileName × ℕ} (hp : isAbsolute p = true)
    (hw : t.walk false k [] (Path.ofText p).segs = .ok r) :
    t.walk false k [] (((p.splitOn sep).filterMap Rust.Path.segment).map Seg.ofComponent) =
      .ok r := by
  rw [← filter_moves_segs (ne_nil_of_isAbsolute hp)]
  exact Tree.walk_filter_moves hw

theorem ne_nil_of_canonicalize {l : List FileName}
    (hl : fs.canonicalize (Path.ofText p) = .ok l) : p ≠ [] := by
  rintro rfl
  cases hl

/-- **Cleaning keeps a path that resolves**: what `components` drops does not lead anywhere. -/
theorem canonicalize_ofComponents {l : List FileName}
    (hl : fs.canonicalize (Path.ofText p) = .ok l) :
    fs.canonicalize (Path.ofText (ofComponents (components p))) = .ok l := by
  have hne := ne_nil_of_canonicalize hl
  have habs := isAbsolute_ofComponents p
  by_cases hp : isAbsolute p = true
  · obtain ⟨j, hw⟩ := (FileSystem.canonicalize_absolute_iff hp).mp hl
    refine (FileSystem.canonicalize_absolute_iff (habs.trans hp)).mpr ⟨j, ?_⟩
    rw [components_of_isAbsolute hp, walk_ofComponents fun c hc => later_of_mem hc]
    exact walk_segments hp hw
  · rw [Bool.not_eq_true] at hp
    obtain ⟨c, cs, hcomp, hc, hcs⟩ := components_of_relative hp hne
    have hsegs := segs_ofComponents hc hcs
    rw [← hcomp] at hsegs
    have hs : (Path.ofText p).segs ≠ [] := by
      rw [segs_ofText hne]
      simp [List.splitOn_ne_nil]
    obtain ⟨cur, k, j, hcwd, hw⟩ := (FileSystem.canonicalize_relative_iff hp hs).mp hl
    refine (FileSystem.canonicalize_relative_iff (habs.trans hp) ?_).mpr ⟨cur, k, j, hcwd, ?_⟩
    · rw [hsegs, hcomp]
      simp
    · rw [hsegs]
      exact walk_components hp hne hw

theorem map_ofComponent_names (l : List FileName) :
    (nameComponents l).map Seg.ofComponent = l.map .name := by
  rw [nameComponents, List.map_map]
  exact List.map_congr_left fun n _ => Seg.ofText_name n

/-- A path without `..` at which there is a file: the file is where the cleaned path leads. -/
theorem locate_of_symlinkMetadata {l : List FileName} {i : ℕ}
    (hc : components p = .rootDir :: nameComponents l)
    (hi : fs.symlinkMetadata (Path.ofText p) = .ok (.file i)) :
    ∃ m n dir k, l = m ++ [n] ∧ locate fs (locationText m) n = .ok (dir, k, .file i) ∧
      fs.canonicalize (Path.ofText p) = .ok (dir ++ [n]) := by
  have hp := isAbsolute_of_components hc
  have hstart : fs.start (Path.ofText p) = [] := if_pos hp
  obtain ⟨a, n, dir, k, ha, hw, hlook⟩ := FileSystem.exists_name_of_symlinkMetadata hi
  rw [hstart] at hw
  have hmoves : a.filter Seg.moves ++ [.name n] = l.map .name := by
    have h := filter_moves_segs (ne_nil_of_isAbsolute hp)
    rw [components_of_isAbsolute hp] at hc
    rw [ha, List.filter_append, (List.cons.inj hc).2, map_ofComponent_names] at h
    exact h
  obtain ⟨m, ns, rfl, hm, hns⟩ := List.map_eq_append_iff.mp hmoves.symm
  obtain rfl : ns = [n] := by
    obtain ⟨n', rfl, hn'⟩ := List.map_eq_singleton_iff.mp hns
    rw [Seg.name.inj hn']
  refine ⟨m, n, dir, k, rfl, Tree.locate_ok.mpr ⟨?_, hlook⟩, ?_⟩
  · rw [← ofComponents_location, walk_ofComponents, map_ofComponent_names, hm]
    · exact Tree.walk_filter_moves hw
    · intro c hc
      obtain ⟨n, -, rfl⟩ := List.mem_map.mp hc
      exact .inr ⟨n, rfl⟩
  · refine (FileSystem.canonicalize_absolute_iff hp).mpr ⟨k, ?_⟩
    rw [ha, Tree.walk_append, hw]
    simp only
    rw [Tree.walk_name_node hlook rfl, Tree.walk_nil]

theorem parent_join (p : OsStr) (n : FileName) :
    parent (join p n.1) = some (ofComponents (components p)) := by
  rw [parent, components_join_fileName, List.getLast?_concat, List.dropLast_concat]

/-! ### Removing -/

theorem lresolve_join (hp : isAbsolute p = true) (n : FileName) :
    fs.lresolve (Path.ofText (join p n.1)) = (locate fs p n).map fun r => r.1 ++ [n] := by
  obtain ⟨a, ha, hl⟩ := exists_segs_join fs hp n
  rw [FileSystem.lresolve, ha, ← hl]
  simp only [List.getLast?_concat, List.dropLast_concat, FileSystem.start, absolute_join hp,
    if_true]

theorem lresolve_locationText {l : List FileName} (hc : fs.tree.Clear l) :
    fs.lresolve (Path.ofText (locationText l)) = .ok l := by
  rcases List.eq_nil_or_concat l with rfl | ⟨m, n, rfl⟩
  · have hw := walk_locationText hc maxLinks
    have hlast : (Path.ofText (locationText [])).segs.getLast? = some .slash := by decide
    have habs : (Path.ofText (locationText [])).absolute = true := by decide
    rw [FileSystem.lresolve, hlast]
    simp only [FileSystem.resolve, habs, FileSystem.start, Bool.true_eq_false, false_and, if_false,
      if_true, hw]
    rfl
  · rw [List.concat_eq_append] at hc ⊢
    have hj : locationText (m ++ [n]) = join (locationText m) n.1 := by simp [locationText]
    obtain ⟨x, hx, -⟩ := hc m n List.prefix_rfl
    have hw := walk_locationText (hc.of_prefix (List.prefix_append m [n])) maxLinks
    have hl : locate fs (locationText m) n = .ok (m, maxLinks, x) := Tree.locate_ok.mpr ⟨hw, hx⟩
    rw [hj, lresolve_join (isAbsolute_locationText m), hl]
    rfl

end Fs
