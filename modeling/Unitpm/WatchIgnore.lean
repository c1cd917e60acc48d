import Unitpm.Lib.Forest
import Unitpm.Lib.OsPath

/-! # Files that a watch ignores

The watcher of `daemon::manager::watcher` walks the directory of a service and compares what it
finds from one poll to the next.  `walkdir_follow` leaves out every file and directory that one of
the `--watch-ignore` patterns matches; `match_ignore` is given the name of the entry and its path
relative to the root.

Before it turns to the glob, `match_ignore` compares the last component of the path with the name,
not with the pattern, and for the paths of a walk these are equal (`fileName_relText`).  So a
pattern that is neither refused nor of the form `*.ext` matches everything (`matchIgnore_plain`),
and with one such pattern a watch sees no file (`walkdirFollow_plain`). -/

namespace Unitpm.Manager.Watch

open Rust.Path Fs Worklist

/-! ### Patterns -/

/-- `str::find`, as what is left behind the first occurrence. -/
def afterFirst (chunk : List Char) : List Char → Option (List Char)
  | [] => if chunk.isPrefixOf [] then some [] else none
  | c :: s =>
      if chunk.isPrefixOf (c :: s) then some ((c :: s).drop chunk.length) else afterFirst chunk s

/-- The loop of `path_match`, on what is left of the path behind the cursor. -/
def matchChunks : List (List Char) → List Char → Bool
  | [], _ => true
  | chunk :: chunks, rest =>
      if chunk = [] then matchChunks chunks rest
      else
        match afterFirst chunk rest with
        | some rest => matchChunks chunks rest
        | none => false

/-- `path_match`. -/
def pathMatch (path pattern : List Char) : Bool :=
  let ps := pattern.splitOn '*'
  if ps.length = 1 then path == pattern else matchChunks ps path

/-- The pattern is refused: it goes up or is absolute. -/
def refused (pattern : List Char) : Bool :=
  decide (['.', '.'] <:+: pattern) || isAbsolute pattern

/-- `match_ignore`. -/
def matchIgnore (name rel pattern : List Char) : Bool :=
  if refused pattern then false
  else
    match pattern with
    | '*' :: '.' :: rest => rest.isSuffixOf name
    | _ =>
        if name = pattern then true
        else (fileName rel).any (fun f => f == name) || pathMatch rel pattern

/-! ### The walk -/

/-- The type of a directory entry. -/
inductive FileType where
  | symlink
  | dir
  | file
  | other
deriving DecidableEq

/-- An entry of a directory: its type and its metadata, if these can be read. -/
structure WatchEntry (Meta : Type) where
  name : FileName
  fileType : Option FileType
  metadata : Option Meta

/-- `to_string_lossy` of a name. -/
def nameText (name : FileName) : List Char := name.1.toStringLossy.toList

/-- `to_string_lossy` of the path relative to the root. -/
def relText (dirs : List FileName) (name : FileName) : List Char :=
  (OsStr.toStringLossy ([sep].intercalate ((dirs ++ [name]).map Subtype.val))).toList

/-- `ignore.iter().any(..)`. -/
def ignored (ignore : List (List Char)) (dirs : List FileName) (name : FileName) : Bool :=
  ignore.any fun pattern => matchIgnore (nameText name) (relText dirs name) pattern

variable {Meta : Type}

/-- What the walk lists for an entry of the directory `dirs`. -/
def listed (ignore : List (List Char)) (dirs : List FileName) (e : WatchEntry Meta) :
    Option (List Char × Meta) :=
  match e.fileType with
  | some .file =>
      if ignored ignore dirs e.name then none
      else e.metadata.map fun m => (relText dirs e.name, m)
  | _ => none

/-- The directory that the walk goes on with for an entry. -/
def entered (ignore : List (List Char)) (dirs : List FileName) (e : WatchEntry Meta) :
    Option (List FileName) :=
  match e.fileType with
  | some .dir => if ignored ignore dirs e.name then none else some (dirs ++ [e.name])
  | _ => none

/-- One round of the walk: a directory that cannot be read is skipped, and so is an entry. -/
def walkRound (ignore : List (List Char))
    (readDir : List FileName → Option (List (Option (WatchEntry Meta)))) (_ : ℕ)
    (dirs : List FileName) : List (List Char × Meta) × List (List FileName) :=
  let entries := ((readDir dirs).getD []).filterMap id
  (entries.filterMap (listed ignore dirs), entries.filterMap (entered ignore dirs))

/-- `walkdir_follow`, in at most `fuel` rounds; a directory is named by its path below the root. -/
def walkdirFollow (fuel : ℕ) (ignore : List (List Char))
    (readDir : List FileName → Option (List (Option (WatchEntry Meta)))) :
    Option (List (List Char × Meta)) :=
  drain stack (walkRound ignore readDir) fuel 0 [[]] []

/-! ### Paths of a walk -/

/-- A piece of a name, as `to_string_lossy` shows it. -/
def lossyChar : OsChar → Char
  | .char c => c
  | .raw _ => '\uFFFD'

theorem toList_toStringLossy (p : OsStr) : (OsStr.toStringLossy p).toList = p.map lossyChar := by
  rw [OsStr.toStringLossy, String.toList_ofList]
  apply List.map_congr_left
  rintro (c | bytes) - <;> rfl

theorem eq_char_of_lossyChar {x : OsChar} {c : Char} (h : lossyChar x = c) (hc : c ≠ '\uFFFD') :
    x = .char c := by
  cases x with
  | char d => exact congrArg OsChar.char h
  | raw bytes => exact absurd h.symm hc

theorem validName_nameText (n : FileName) :
    nameText n ≠ [] ∧ nameText n ≠ ['.'] ∧ nameText n ≠ ['.', '.'] ∧ '/' ∉ nameText n := by
  obtain ⟨s, hnil, hdot, hdots, hsep⟩ := n
  have hd : ∀ x, lossyChar x = '.' → x = .char '.' :=
    fun x h => eq_char_of_lossyChar h (by decide)
  rw [nameText, toList_toStringLossy]
  refine ⟨?_, ?_, ?_, ?_⟩
  · simpa using hnil
  · intro h
    obtain ⟨x, rfl, hx⟩ := List.map_eq_singleton_iff.mp h
    exact hdot (by rw [hd x hx]; rfl)
  · intro h
    obtain ⟨x, t, rfl, hx, ht⟩ := List.map_eq_cons_iff.mp h
    obtain ⟨y, rfl, hy⟩ := List.map_eq_singleton_iff.mp ht
    exact hdots (by rw [hd x hx, hd y hy]; rfl)
  · intro h
    obtain ⟨x, hx, hslash⟩ := List.mem_map.mp h
    apply hsep
    rw [eq_char_of_lossyChar hslash (by decide)] at hx
    exact hx

/-- The text of a path of the walk is the texts of its names, with slashes between them. -/
theorem relText_eq (dirs : List FileName) (name : FileName) :
    relText dirs name = ['/'].intercalate ((dirs ++ [name]).map nameText) := by
  have hmap : ∀ ls : List OsStr, ([sep].intercalate ls).map lossyChar =
      ['/'].intercalate (ls.map (List.map lossyChar)) := by
    intro ls
    induction ls with
    | nil => rfl
    | cons l ls ih =>
        cases ls with
        | nil => simp [List.intercalate]
        | cons m ls =>
            have hcons : ∀ {α : Type} (c : α) (a b : List α) (t : List (List α)),
                [c].intercalate (a :: b :: t) = a ++ c :: [c].intercalate (b :: t) := by
              intro α c a b t
              simp [List.intercalate]
            rw [hcons, List.map_append, List.map_cons, ih]
            simp only [List.map_cons]
            rw [hcons]
            rfl
  have hname : nameText = fun n : FileName => n.1.map lossyChar :=
    funext fun n => toList_toStringLossy n.1
  rw [relText, toList_toStringLossy, hmap, List.map_map, hname]
  rfl

/-- The last component of a path of the walk is the name of the entry. -/
theorem fileName_relText (dirs : List FileName) (name : FileName) :
    fileName (relText dirs name) = some (nameText name) := by
  have hvalid : ∀ s ∈ (dirs ++ [name]).map nameText,
      s ≠ [] ∧ s ≠ ['.'] ∧ s ≠ ['.', '.'] ∧ '/' ∉ s := by
    intro s hs
    obtain ⟨n, -, rfl⟩ := List.mem_map.mp hs
    exact validName_nameText n
  have hsplit : (relText dirs name).splitOn sep = (dirs ++ [name]).map nameText := by
    rw [relText_eq]
    exact List.splitOn_intercalate _ (fun s hs => (hvalid s hs).2.2.2) (by simp)
  have hseg : ((dirs ++ [name]).map nameText).filterMap Rust.Path.segment =
      ((dirs ++ [name]).map nameText).map Component.normal := by
    generalize (dirs ++ [name]).map nameText = names at hvalid
    rw [← List.filterMap_eq_map]
    apply List.filterMap_congr
    intro s hs
    obtain ⟨h1, h2, h3, -⟩ := hvalid s hs
    have h2' : s ≠ [dot] := h2
    have h3' : s ≠ [dot, dot] := h3
    simp [Rust.Path.segment, h1, h2', h3']
  have hlast : (components (relText dirs name)).getLast? = some (.normal (nameText name)) := by
    rw [components]
    simp only [hsplit]
    rw [hseg, List.map_append, List.map_append, ← List.append_assoc]
    exact List.getLast?_concat
  rw [fileName, hlast]

/-! ### What the patterns match -/

theorem matchIgnore_plain {pattern : List Char} (hok : refused pattern = false)
    (hplain : ∀ ext, pattern ≠ '*' :: '.' :: ext) (dirs : List FileName) (name : FileName) :
    matchIgnore (nameText name) (relText dirs name) pattern = true := by
  unfold matchIgnore
  rw [hok, if_neg Bool.false_ne_true]
  split
  · rename_i ext
    exact absurd rfl (hplain ext)
  · rw [fileName_relText]
    simp

theorem matchIgnore_ext {ext : List Char} (hok : refused ('*' :: '.' :: ext) = false)
    (name rel : List Char) :
    matchIgnore name rel ('*' :: '.' :: ext) = true ↔ ext <:+ name := by
  unfold matchIgnore
  rw [hok, if_neg Bool.false_ne_true]
  exact List.isSuffixOf_iff_suffix

/-- With a pattern that matches everything the walk lists nothing. -/
theorem walkdirFollow_plain {ignore : List (List Char)} {pattern : List Char}
    (hmem : pattern ∈ ignore) (hok : refused pattern = false)
    (hplain : ∀ ext, pattern ≠ '*' :: '.' :: ext)
    (readDir : List FileName → Option (List (Option (WatchEntry Meta)))) :
    walkdirFollow 1 ignore readDir = some [] := by
  have hall : ∀ dirs name, ignored ignore dirs name = true := fun dirs name =>
    List.any_eq_true.mpr ⟨pattern, hmem, matchIgnore_plain hok hplain dirs name⟩
  have hround : walkRound ignore readDir 0 [] = ([], []) := by
    have hlisted : (listed ignore [] : WatchEntry Meta → _) = fun _ => none := by
      funext e
      unfold listed
      split <;> simp [hall]
    have hentered : (entered ignore [] : WatchEntry Meta → _) = fun _ => none := by
      funext e
      unfold entered
      split <;> simp [hall]
    rw [walkRound, hlisted, hentered]
    simp
  rw [walkdirFollow, drain_cons, hround]
  rfl

/-! ### What they are documented to match -/

/-- The whole of a text matches a pattern, in which `*` stands for any run of characters. -/
inductive Glob : List Char → List Char → Prop where
  | nil : Glob [] []
  | char {c : Char} {p s : List Char} : c ≠ '*' → Glob p s → Glob (c :: p) (c :: s)
  | star (run : List Char) {p s : List Char} : Glob p s → Glob ('*' :: p) (run ++ s)

/-- The pattern is meant for the entry: by the extension of its name, by its name or by its path. -/
def Meant (name rel pattern : List Char) : Prop :=
  (∃ ext, pattern = '*' :: '.' :: ext ∧ '.' :: ext <:+ name) ∨ name = pattern ∨ Glob pattern rel

theorem meant_ext {name rel ext : List Char} :
    Meant name rel ('*' :: '.' :: ext) ↔ '.' :: ext <:+ name ∨ Glob ('*' :: '.' :: ext) rel := by
  constructor
  · rintro (⟨e, he, h⟩ | h | h)
    · cases he
      exact .inl h
    · exact .inl (h ▸ List.suffix_cons _ _)
    · exact .inr h
  · rintro (h | h)
    · exact .inl ⟨ext, rfl, h⟩
    · exact .inr (.inr h)

theorem meant_plain {name rel pattern : List Char} (hplain : ∀ ext, pattern ≠ '*' :: '.' :: ext) :
    Meant name rel pattern ↔ name = pattern ∨ Glob pattern rel := by
  constructor
  · rintro (⟨ext, he, -⟩ | h)
    · exact absurd he (hplain ext)
    · exact h
  · exact .inr

/-- A pattern matches what it is meant for if and only if, for `*.ext`, a name that ends with `ext`
but not with `.ext` matches as a glob, and any other pattern is meant for the entry anyway. -/
theorem matchIgnore_iff_meant {pattern : List Char} (hdots : ¬ ['.', '.'] <:+: pattern)
    (hrel : isAbsolute pattern = false) (dirs : List FileName) (name : FileName) :
    (matchIgnore (nameText name) (relText dirs name) pattern = true ↔
      Meant (nameText name) (relText dirs name) pattern) ↔
    (∀ ext, pattern = '*' :: '.' :: ext → '.' :: ext <:+ nameText name ∨
        (ext <:+ nameText name ↔ Glob pattern (relText dirs name))) ∧
      ((∀ ext, pattern ≠ '*' :: '.' :: ext) →
        nameText name = pattern ∨ Glob pattern (relText dirs name)) := by
  have hok : refused pattern = false := by simp [refused, hdots, hrel]
  by_cases hext : ∃ ext, pattern = '*' :: '.' :: ext
  · obtain ⟨ext, rfl⟩ := hext
    rw [matchIgnore_ext hok]
    rw [meant_ext]
    constructor
    · intro h
      refine ⟨?_, fun hne => absurd rfl (hne ext)⟩
      rintro e ⟨⟩
      by_cases hdot : '.' :: ext <:+ nameText name
      · exact .inl hdot
      · exact .inr (h.trans (or_iff_right hdot))
    · rintro ⟨h, -⟩
      rcases h ext rfl with hdot | hiff
      · have hend : ext <:+ nameText name := (List.suffix_cons _ _).trans hdot
        exact iff_of_true hend (.inl hdot)
      · constructor
        · exact fun hend => .inr (hiff.mp hend)
        · rintro (hdot | hglob)
          · exact (List.suffix_cons _ _).trans hdot
          · exact hiff.mpr hglob
  · have hplain : ∀ ext, pattern ≠ '*' :: '.' :: ext := fun ext h => hext ⟨ext, h⟩
    rw [matchIgnore_plain hok hplain dirs name, meant_plain hplain]
    constructor
    · intro h
      exact ⟨fun ext he => absurd he (hplain ext), fun _ => h.mp rfl⟩
    · rintro ⟨-, h⟩
      exact iff_of_true rfl (h hplain)

/-- `--watch-ignore node_modules` matches `app.js`. -/
theorem nodeModules_matches_app :
    ¬ ∀ (dirs : List FileName) (name : FileName) (pattern : List Char),
      ¬ ['.', '.'] <:+: pattern → isAbsolute pattern = false →
      (matchIgnore (nameText name) (relText dirs name) pattern = true ↔
        Meant (nameText name) (relText dirs name) pattern) := by
  intro hall
  have hiff := hall [] (FileName.ofString "app.js") "node_modules".toList (by decide) (by decide)
  have hplain : ∀ ext, "node_modules".toList ≠ '*' :: '.' :: ext := by simp
  rcases hiff.mp (matchIgnore_plain (by decide) hplain _ _) with ⟨ext, he, -⟩ | hname | hglob
  · exact hplain ext he
  · exact absurd hname (by decide)
  · cases hglob

/-- `--watch-ignore *.log` matches `app.log`, as it is meant to. -/
theorem log_matches_log :
    ¬ ['.', '.'] <:+: "*.log".toList ∧ isAbsolute "*.log".toList = false ∧
      (matchIgnore (nameText (FileName.ofString "app.log"))
          (relText [] (FileName.ofString "app.log")) "*.log".toList = true ↔
        Meant (nameText (FileName.ofString "app.log"))
          (relText [] (FileName.ofString "app.log")) "*.log".toList) := by
  refine ⟨by decide, by decide, ?_⟩
  apply (matchIgnore_iff_meant (by decide) (by decide) [] (FileName.ofString "app.log")).mpr
  constructor
  · rintro ext he
    obtain rfl : ext = "log".toList := by simpa using he.symm
    exact .inl (by decide)
  · exact fun hne => absurd rfl (hne "log".toList)

end Unitpm.Manager.Watch
