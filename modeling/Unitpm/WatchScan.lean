import Unitpm.WatchDiff

/-! # What a watch sees of a directory

`walkdir_follow` takes directories off a stack and puts those it finds on it, and `scan` makes a map
of the files that come out.  Over a tree of directories the walk ends, lists every file once, and
the map gives for each path what the tree has there, unless the file or a directory above it is
ignored (`lookup_scan_iff`).

`callback_iff_changed` is the watch as a whole: in a round the callback is called exactly if a file
that is not ignored has come, gone, or changed its size or its time since the round before. -/

namespace Unitpm.Manager.Watch

open Relation Rust.Path Fs Worklist

/-! ### Trees -/

/-- What `read_dir` gives for a directory, which is named by its path below the root. -/
abbrev ReadDir : Type := List FileName → Option (List (Option (WatchEntry Metadata)))

/-- The entries of a directory that can be read. -/
def entriesOf (readDir : ReadDir) (dirs : List FileName) : List (WatchEntry Metadata) :=
  ((readDir dirs).getD []).filterMap id

/-- Directories of some depth, in which no name is there twice and all names are Unicode text. -/
structure IsTree (readDir : ReadDir) : Prop where
  once : ∀ dirs, ((entriesOf readDir dirs).map WatchEntry.name).Nodup
  depth : ∃ n, ∀ dirs, n ≤ dirs.length → entriesOf readDir dirs = []
  shown : ∀ dirs, ∀ e ∈ entriesOf readDir dirs, '\uFFFD' ∉ nameText e.name

/-- The directories below the root that are not ignored, nor below one that is. -/
inductive Reached (ignore : List (List Char)) (readDir : ReadDir) : List FileName → Prop where
  | root : Reached ignore readDir []
  | dir {dirs : List FileName} {e : WatchEntry Metadata} (above : Reached ignore readDir dirs)
      (here : e ∈ entriesOf readDir dirs) (isDir : e.fileType = some .dir)
      (kept : ignored ignore dirs e.name = false) : Reached ignore readDir (dirs ++ [e.name])

/-- The file `name` of the directory `dirs` is watched, with its time and its size. -/
def Watched (ignore : List (List Char)) (readDir : ReadDir) (dirs : List FileName)
    (name : FileName) (f : FileEntry) : Prop :=
  Reached ignore readDir dirs ∧ ∃ e ∈ entriesOf readDir dirs, e.name = name ∧
    e.fileType = some .file ∧ ignored ignore dirs name = false ∧
    ∃ m, e.metadata = some m ∧ m.entry = f

section Walk

variable {ignore : List (List Char)} {readDir : ReadDir} {dirs dirs' : List FileName}
  {name name' : FileName} {e : WatchEntry Metadata}

/-- The directories that a round puts on the stack. -/
def subdirs (ignore : List (List Char)) (readDir : ReadDir) (dirs : List FileName) :
    List (List FileName) :=
  (entriesOf readDir dirs).filterMap (entered ignore dirs)

/-- The files that a round lists. -/
def filesOf (ignore : List (List Char)) (readDir : ReadDir) (dirs : List FileName) :
    List (List Char × Metadata) :=
  (entriesOf readDir dirs).filterMap (listed ignore dirs)

theorem entered_eq_some_iff : entered ignore dirs e = some dirs' ↔
    e.fileType = some .dir ∧ ignored ignore dirs e.name = false ∧ dirs ++ [e.name] = dirs' := by
  unfold entered
  rcases e.fileType with _ | _ | _ | _ | _ <;> simp

theorem listed_eq_some_iff {path : List Char} {m : Metadata} :
    listed ignore dirs e = some (path, m) ↔ e.fileType = some .file ∧
      ignored ignore dirs e.name = false ∧ e.metadata = some m ∧ relText dirs e.name = path := by
  unfold listed
  rcases e.fileType with _ | _ | _ | _ | _ <;> simp [and_comm]

theorem mem_subdirs_iff : dirs' ∈ subdirs ignore readDir dirs ↔
    ∃ e ∈ entriesOf readDir dirs, e.fileType = some .dir ∧ ignored ignore dirs e.name = false ∧
      dirs ++ [e.name] = dirs' := by
  simp only [subdirs, List.mem_filterMap, entered_eq_some_iff]

/-- The directories of the walk are those below the root in the sense of the stack. -/
theorem reached_iff : Reached ignore readDir dirs ↔
    ReflTransGen (IsParent (subdirs ignore readDir)) [] dirs := by
  constructor
  · intro h
    induction h with
    | root => exact .refl
    | dir _ here isDir kept ih => exact ih.tail (mem_subdirs_iff.mpr ⟨_, here, isDir, kept, rfl⟩)
  · intro h
    induction h with
    | refl => exact .root
    | tail _ hstep ih =>
        obtain ⟨e, here, isDir, kept, rfl⟩ := mem_subdirs_iff.mp hstep
        exact .dir ih here isDir kept

variable (htree : IsTree readDir)
include htree

theorem IsTree.oneParent : OneParent (subdirs ignore readDir) where
  once dirs := by
    rw [List.Nodup, subdirs, List.pairwise_filterMap]
    refine (List.pairwise_map.mp (htree.once dirs)).imp fun {a b} hne x hx y hy => ?_
    obtain ⟨-, -, rfl⟩ := entered_eq_some_iff.mp hx
    obtain ⟨-, -, rfl⟩ := entered_eq_some_iff.mp hy
    simpa using hne
  unique a b c ha hb := by
    obtain ⟨x, -, -, -, rfl⟩ := mem_subdirs_iff.mp ha
    obtain ⟨y, -, -, -, h⟩ := mem_subdirs_iff.mp hb
    exact (List.append_inj_left' h rfl).symm

theorem IsTree.acc (dirs : List FileName) :
    Acc (flip (IsParent (subdirs ignore readDir))) dirs := by
  obtain ⟨n, hn⟩ := htree.depth
  -- by induction on the depth that is left below the directory
  induction hk : n - dirs.length using Nat.strong_induction_on generalizing dirs with
  | _ k ih =>
      refine ⟨_, fun x hx => ?_⟩
      obtain ⟨e, he, -, -, rfl⟩ := mem_subdirs_iff.mp hx
      have hlt : dirs.length < n := by
        by_contra hge
        rw [hn dirs (by omega)] at he
        cases he
      refine ih _ ?_ _ rfl
      rw [List.length_append, List.length_singleton]
      omega

theorem Reached.shown (h : Reached ignore readDir dirs) : ∀ n ∈ dirs, '\uFFFD' ∉ nameText n := by
  induction h with
  | root => exact List.forall_mem_nil _
  | dir _ here _ _ ih =>
      rw [List.forall_mem_append, List.forall_mem_singleton]
      exact ⟨ih, htree.shown _ _ here⟩

end Walk

/-! ### Paths -/

theorem nameText_inj {n n' : FileName} (hn : '\uFFFD' ∉ nameText n)
    (h : nameText n = nameText n') : n = n' := by
  have hback : ∀ p : OsStr, ∀ cs : List Char, '\uFFFD' ∉ cs → p.map lossyChar = cs →
      p = cs.map OsChar.char := by
    rintro p cs hcs rfl
    rw [List.map_map]
    conv_lhs => rw [← List.map_id p]
    refine List.map_congr_left fun x hx => ?_
    have hne : lossyChar x ≠ '\uFFFD' := fun heq => hcs (heq ▸ List.mem_map_of_mem hx)
    exact eq_char_of_lossyChar rfl hne
  have h1 : n.1.map lossyChar = nameText n := (toList_toStringLossy n.1).symm
  have h2 : n'.1.map lossyChar = nameText n := h ▸ (toList_toStringLossy n'.1).symm
  exact Subtype.ext ((hback _ _ hn h1).trans (hback _ _ hn h2).symm)

/-- A path of names that are text is given by its text. -/
theorem relText_inj {dirs dirs' : List FileName} {name name' : FileName}
    (hdirs : ∀ n ∈ dirs, '\uFFFD' ∉ nameText n) (hname : '\uFFFD' ∉ nameText name)
    (h : relText dirs name = relText dirs' name') : dirs = dirs' ∧ name = name' := by
  have hslash : ∀ l : List FileName, ∀ s ∈ l.map nameText, '/' ∉ s := by
    intro l s hs
    obtain ⟨n, -, rfl⟩ := List.mem_map.mp hs
    exact (validName_nameText n).2.2.2
  have hsplit : ∀ (d : List FileName) (n : FileName),
      (relText d n).splitOn '/' = (d ++ [n]).map nameText := by
    intro d n
    rw [relText_eq]
    exact List.splitOn_intercalate _ (hslash _) (by simp)
  have hmap : (dirs ++ [name]).map nameText = (dirs' ++ [name']).map nameText := by
    rw [← hsplit, ← hsplit, h]
  have hall : ∀ n ∈ dirs ++ [name], '\uFFFD' ∉ nameText n := by
    rw [List.forall_mem_append, List.forall_mem_singleton]
    exact ⟨hdirs, hname⟩
  have hinj : ∀ l l' : List FileName, (∀ n ∈ l, '\uFFFD' ∉ nameText n) →
      l.map nameText = l'.map nameText → l = l' := by
    intro l
    induction l with
    | nil =>
        intro l' _ hl
        exact (List.map_eq_nil_iff.mp hl.symm).symm
    | cons n l ih =>
        intro l' hl hmap
        obtain ⟨n', l', rfl, hn, htail⟩ := List.map_eq_cons_iff.mp hmap.symm
        obtain ⟨hnshown, hl⟩ := List.forall_mem_cons.mp hl
        rw [nameText_inj hnshown hn.symm, ih l' hl htail.symm]
  simpa using List.append_inj' (hinj _ _ hall hmap) rfl

/-! ### The walk -/

section Scan

variable {ignore : List (List Char)} {readDir : ReadDir} {fuel : ℕ}
  {files : List (List Char × Metadata)} {path : List Char} {f : FileEntry}

/-- What the watch has for a path. -/
def Shows (ignore : List (List Char)) (readDir : ReadDir) (path : List Char) (f : FileEntry) :
    Prop :=
  ∃ dirs name, relText dirs name = path ∧ Watched ignore readDir dirs name f

theorem IsTree.exists_forest (htree : IsTree readDir) (ignore : List (List Char)) :
    ∃ g : Forest (List FileName), g.roots = [[]] ∧ g.Unfolds (subdirs ignore readDir) ∧
      g.preorder.Nodup ∧ ∀ dirs, dirs ∈ g.preorder ↔ Reached ignore readDir dirs := by
  have hacc : ∀ w ∈ [([] : List FileName)], Acc (flip (IsParent (subdirs ignore readDir))) w :=
    fun w _ => htree.acc w
  obtain ⟨g, hroots, hg⟩ := exists_unfolds_of_acc hacc
  refine ⟨g, hroots, hg, ?_, fun dirs => ?_⟩
  · apply Forest.nodup_preorder htree.oneParent hg
    · rw [hroots]
      exact List.nodup_singleton _
    · rw [hroots]
      intro a ha b hb hab
      obtain rfl := List.mem_singleton.mp ha
      obtain rfl := List.mem_singleton.mp hb
      obtain ⟨c, -, hc⟩ := TransGen.tail'_iff.mp hab
      obtain ⟨e, -, -, -, he⟩ := mem_subdirs_iff.mp hc
      simp at he
  · rw [Forest.mem_preorder_iff hg, hroots, reached_iff]
    simp

/-- **The walk ends.** -/
theorem IsTree.walk_ends (htree : IsTree readDir) (ignore : List (List Char)) :
    ∃ fuel files, walkdirFollow fuel ignore readDir = some files := by
  obtain ⟨g, hroots, hg, -, -⟩ := htree.exists_forest ignore
  have hstep : ∀ k dirs, (walkRound ignore readDir k dirs).2 = subdirs ignore readDir dirs ∨
      (walkRound ignore readDir k dirs).2 = [] := fun _ _ => .inl rfl
  exact drain_terminates stack_perm hstep hg hroots 0 []

/-- **The walk** lists each watched file once. -/
theorem IsTree.walk (htree : IsTree readDir) (h : walkdirFollow fuel ignore readDir = some files) :
    (files.map Prod.fst).Nodup ∧
      ∀ path f, (∃ m, (path, m) ∈ files ∧ m.entry = f) ↔ Shows ignore readDir path f := by
  obtain ⟨g, hroots, hg, hnodup, hmem⟩ := htree.exists_forest ignore
  have hperm : files.Perm (g.preorder.flatMap (filesOf ignore readDir)) :=
    drain_perm stack_perm hg (fun _ _ _ => rfl) hroots h
  have hfile : ∀ {dirs path m}, (path, m) ∈ filesOf ignore readDir dirs ↔
      ∃ e ∈ entriesOf readDir dirs, e.fileType = some .file ∧
        ignored ignore dirs e.name = false ∧ e.metadata = some m ∧ relText dirs e.name = path := by
    intro dirs path m
    simp only [filesOf, List.mem_filterMap, listed_eq_some_iff]
  have hshown : ∀ dirs ∈ g.preorder, ∀ n ∈ dirs, '\uFFFD' ∉ nameText n :=
    fun dirs hdirs => Reached.shown htree ((hmem dirs).mp hdirs)
  constructor
  · refine ((hperm.map Prod.fst).nodup_iff).mpr ?_
    rw [List.map_flatMap, List.nodup_flatMap]
    constructor
    · intro dirs hdirs
      rw [filesOf, List.Nodup, List.pairwise_map, List.pairwise_filterMap]
      refine List.Pairwise.imp_of_mem ?_ (List.pairwise_map.mp (htree.once dirs))
      intro a b ha _ hne x hx y hy heq
      obtain ⟨px, mx⟩ := x
      obtain ⟨py, my⟩ := y
      obtain ⟨-, -, -, rfl⟩ := listed_eq_some_iff.mp hx
      obtain ⟨-, -, -, rfl⟩ := listed_eq_some_iff.mp hy
      exact hne (relText_inj (hshown dirs hdirs) (htree.shown dirs a ha) heq).2
    · refine List.Pairwise.imp_of_mem ?_ hnodup
      intro dirs dirs' hdirs _ hne
      rw [Function.onFun, List.disjoint_left]
      intro p hp hp'
      obtain ⟨⟨path, m⟩, hm, rfl⟩ := List.mem_map.mp hp
      obtain ⟨⟨path', m'⟩, hm', rfl⟩ := List.mem_map.mp hp'
      obtain ⟨e, he, -, -, -, rfl⟩ := hfile.mp hm
      obtain ⟨e', -, -, -, -, heq⟩ := hfile.mp hm'
      exact hne (relText_inj (hshown dirs hdirs) (htree.shown dirs e he) heq.symm).1
  · intro path f
    constructor
    · rintro ⟨m, hm, rfl⟩
      obtain ⟨dirs, hdirs, hm⟩ := List.mem_flatMap.mp (hperm.mem_iff.mp hm)
      obtain ⟨e, he, htype, hkept, hmeta, rfl⟩ := hfile.mp hm
      exact ⟨dirs, e.name, rfl, (hmem dirs).mp hdirs, e, he, rfl, htype, hkept, m, hmeta, rfl⟩
    · rintro ⟨dirs, name, rfl, hreached, e, he, rfl, htype, hkept, m, hmeta, rfl⟩
      refine ⟨m, hperm.mem_iff.mpr (List.mem_flatMap.mpr ⟨dirs, (hmem dirs).mpr hreached, ?_⟩), rfl⟩
      exact hfile.mpr ⟨e, he, htype, hkept, hmeta, rfl⟩

/-- **A scan** that the limit does not cut off is the map of the watched files. -/
theorem lookup_scan_iff (htree : IsTree readDir)
    (h : walkdirFollow fuel ignore readDir = some files) (hlimit : files.length ≤ maxWatchFiles)
    (path : List Char) (f : FileEntry) :
    (collectFiles files).lookup path = some f ↔ Shows ignore readDir path f := by
  obtain ⟨hnodup, hmem⟩ := htree.walk h
  have hkeys : ((files.map fun p => (p.1, p.2.entry)).map Prod.fst).Nodup := by
    rwa [List.map_map]
  rw [lookup_collectFiles, List.take_of_length_le hlimit, Overlay.lastVal_eq_some_iff hkeys,
    ← hmem]
  simp

end Scan

/-! ### The watch -/

theorem watched_of_shows {ignore : List (List Char)} {old cur : ReadDir} {dirs : List FileName}
    {name : FileName} {f f' : FileEntry} (hold : IsTree old)
    (h : Watched ignore old dirs name f) (hshows : Shows ignore cur (relText dirs name) f') :
    Watched ignore cur dirs name f' := by
  obtain ⟨hreached, e, he, rfl, -⟩ := h
  obtain ⟨dirs', name', heq, hw⟩ := hshows
  obtain ⟨rfl, rfl⟩ := relText_inj (hreached.shown hold) (hold.shown _ _ he) heq.symm
  exact hw

/-- A snapshot is what a walk over the tree comes to, within the limit. -/
def ScanOf (ignore : List (List Char)) (readDir : ReadDir) (s : Snapshot) : Prop :=
  ∀ fuel files, walkdirFollow fuel ignore readDir = some files →
    files.length ≤ maxWatchFiles ∧ s = collectFiles files

/-- The walk over the tree ends, and it lists each watched file once and nothing else. -/
def Lists (ignore : List (List Char)) (readDir : ReadDir) : Prop :=
  ∃ n files, (∀ fuel ≥ n, walkdirFollow fuel ignore readDir = some files) ∧
    (files.map Prod.fst).Nodup ∧
    ∀ path f, (∃ m, (path, m) ∈ files ∧ m.entry = f) ↔ Shows ignore readDir path f

/-- Two scans differ if and only if a watched file does. -/
theorem diffSnapshots_scan_iff {ignore : List (List Char)} {old cur : ReadDir} {s t : Snapshot}
    (hold : IsTree old) (hcur : IsTree cur) (hs : ScanOf ignore old s) (ht : ScanOf ignore cur t) :
    diffSnapshots s t = true ↔
      ∃ dirs name f, ¬ (Watched ignore old dirs name f ↔ Watched ignore cur dirs name f) := by
  obtain ⟨fuel, files, hfiles⟩ := hold.walk_ends ignore
  obtain ⟨fuel', files', hfiles'⟩ := hcur.walk_ends ignore
  obtain ⟨hlimit, rfl⟩ := hs fuel files hfiles
  obtain ⟨hlimit', rfl⟩ := ht fuel' files' hfiles'
  have hsame : (∀ path, (collectFiles files).lookup path = (collectFiles files').lookup path) ↔
      ∀ path f, Shows ignore old path f ↔ Shows ignore cur path f := by
    simp only [Option.ext_iff, lookup_scan_iff hold hfiles hlimit,
      lookup_scan_iff hcur hfiles' hlimit']
  have hpath : (∀ path f, Shows ignore old path f ↔ Shows ignore cur path f) ↔
      ∀ dirs name f, Watched ignore old dirs name f ↔ Watched ignore cur dirs name f := by
    constructor
    · intro h dirs name f
      exact ⟨fun hw => watched_of_shows hold hw ((h _ f).mp ⟨dirs, name, rfl, hw⟩),
        fun hw => watched_of_shows hcur hw ((h _ f).mpr ⟨dirs, name, rfl, hw⟩)⟩
    · rintro h path f
      simp only [Shows, h]
  rw [diffSnapshots_iff_lookup, hsame, hpath]
  simp only [not_forall]

/-- **The watch.**  However the scans and the cancellation of the watch fall, as long as each scan
is of a tree with at most `maxWatchFiles` watched files: each walk ends and lists the watched files
once, and in a round that comes to the comparison the callback is called if and only if a watched
file is there that was not there in the round before, or was there and is not any more, or has
another time or another size. -/
theorem callback_iff_changed (ignore : List (List Char)) (initial : Snapshot) (rounds : List Round)
    (trees : ℕ → ReadDir) (htrees : ∀ i, IsTree (trees i))
    (hscans : ∀ i s, (scans initial rounds)[i]? = some s → ScanOf ignore (trees i) s) :
    (∀ i, Lists ignore (trees i)) ∧
      ∀ i < (activeRounds rounds).length, (watchRounds initial rounds)[i]? = some true ↔
        ∃ dirs name f, ¬ (Watched ignore (trees i) dirs name f ↔
          Watched ignore (trees (i + 1)) dirs name f) := by
  refine ⟨fun i => ?_, fun i hi => ?_⟩
  · obtain ⟨fuel, files, hwalk⟩ := (htrees i).walk_ends ignore
    exact ⟨fuel, files, fun _ hle => drain_of_le hle hwalk, (htrees i).walk hwalk⟩
  have hlen : (scans initial rounds).length = (activeRounds rounds).length + 1 := by
    rw [scans, List.length_cons, List.length_map]
  have hlast : (scans initial rounds)[i]? = some (scans initial rounds)[i] :=
    List.getElem?_eq_getElem _
  have hcur : (scans initial rounds)[i + 1]? = some (scans initial rounds)[i + 1] :=
    List.getElem?_eq_getElem _
  have hround : (watchRounds initial rounds)[i]? = some true ↔
      diffSnapshots (scans initial rounds)[i] (scans initial rounds)[i + 1] = true := by
    rw [watchRounds_eq, List.getElem?_zipWith_eq_some, List.getElem?_tail, hlast, hcur]
    simp
  rw [hround]
  exact diffSnapshots_scan_iff (htrees i) (htrees (i + 1)) (hscans i _ hlast)
    (hscans (i + 1) _ hcur)

/-- A directory with one file of the given size. -/
def oneFile (size : ℕ) : ReadDir := fun dirs =>
  if dirs = [] then some [some ⟨FileName.ofString "a", some .file, some ⟨none, size⟩⟩] else none

theorem entriesOf_oneFile (size : ℕ) (dirs : List FileName) :
    entriesOf (oneFile size) dirs =
      if dirs = [] then [⟨FileName.ofString "a", some .file, some ⟨none, size⟩⟩] else [] := by
  unfold entriesOf oneFile
  split_ifs <;> rfl

theorem isTree_oneFile (size : ℕ) : IsTree (oneFile size) where
  once dirs := by
    rw [entriesOf_oneFile]
    split_ifs <;> simp
  depth := ⟨1, fun dirs h => by
    rw [entriesOf_oneFile, if_neg]
    rintro rfl
    simp at h⟩
  shown dirs e he := by
    rw [entriesOf_oneFile] at he
    split_ifs at he
    · obtain rfl := List.mem_singleton.mp he
      change '\uFFFD' ∉ nameText (FileName.ofString "a")
      decide +kernel
    · cases he

/-- A file that grows once, in three rounds. -/
theorem callback_grown :
    let round (size : ℕ) : Round := ⟨false, collectFiles [(['a'], ⟨none, size⟩)], false⟩
    let rounds := [round 1, round 2, round 2]
    let trees (i : ℕ) : ReadDir := oneFile (if i ≤ 1 then 1 else 2)
    (watchRounds (round 1).current rounds)[1]? = some true ↔
      ∃ dirs name f, ¬ (Watched [] (trees 1) dirs name f ↔ Watched [] (trees 2) dirs name f) := by
  intro round rounds trees
  have hwalk : ∀ fuel size files, walkdirFollow fuel [] (oneFile size) = some files →
      files = [(['a'], ⟨none, size⟩)] := by
    intro fuel size files h
    have hname : relText [] (FileName.ofString "a") = ['a'] := by decide +kernel
    have hround : walkRound [] (oneFile size) 0 [] = ([(['a'], ⟨none, size⟩)], []) := by
      simp [walkRound, oneFile, listed, entered, ignored, hname]
    cases fuel with
    | zero => cases h
    | succ fuel =>
        rw [walkdirFollow, drain_cons, hround] at h
        cases fuel <;> exact (Option.some.inj h).symm
  have hscan : ∀ size, ScanOf [] (oneFile size) (round size).current := by
    intro size fuel files h
    obtain rfl := hwalk fuel size files h
    exact ⟨by simp [maxWatchFiles], rfl⟩
  refine (callback_iff_changed [] (round 1).current rounds trees (fun i => isTree_oneFile _)
    (fun i s hs => ?_)).2 1 (by decide)
  rcases i with _ | _ | _ | _ | i <;> cases hs
  · exact hscan 1
  · exact hscan 1
  · exact hscan 2
  · exact hscan 2

end Unitpm.Manager.Watch
