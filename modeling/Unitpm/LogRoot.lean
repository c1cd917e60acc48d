import Unitpm.Paths

/-! # What a system daemon accepts as a log directory

In system mode `get_log_dir` returns a directory only if it lies, by its components, in one of the
resolved roots.  A directory that exists is then resolved and has to be inside the root itself.  For
one that does not exist the search for links shows more: every prefix of it that does exist is
inside (`getLogDir_inside`).  A directory that exists may be reached through links that leave the
root and come back (`getLogDir_through_outside`). -/

namespace Unitpm

open Rust.Path Fs

variable {h : Host} {fs : Disk} {root p q : OsStr} {n : FileName}

/-! ### Inside a root -/

theorem withinRoot_iff : withinRoot root p = true ↔
    ∃ rel, components p = components root ++ rel ∧ .parentDir ∉ rel := by
  unfold withinRoot stripPrefix
  split
  · rename_i hs
    split at hs
    · cases hs
    · rename_i hpre
      simp only [Bool.false_eq_true, false_iff, not_exists, not_and]
      intro rel he
      exact absurd (List.isPrefixOf_iff_prefix.mpr ⟨rel, he.symm⟩) hpre
  · rename_i rel hs
    split at hs
    · rename_i hpre
      obtain ⟨rest, hrest⟩ := List.isPrefixOf_iff_prefix.mp hpre
      obtain rfl : rest = rel := by
        rw [← Option.some.inj hs, ← hrest, List.drop_left]
      rw [← hrest]
      simp
    · cases hs

theorem withinRoot_self (root : OsStr) : withinRoot root root = true :=
  withinRoot_iff.mpr ⟨[], by simp, by simp⟩

theorem withinRoot_concat {l : List FileName} (hl : withinRoot root (locationText l) = true)
    (n : FileName) : withinRoot root (locationText (l ++ [n])) = true := by
  obtain ⟨rel, he, hup⟩ := withinRoot_iff.mp hl
  rw [components_locationText] at he
  refine withinRoot_iff.mpr ⟨rel ++ [.normal n.1], ?_, by simp [hup]⟩
  rw [components_locationText, nameComponents, List.map_append, ← nameComponents,
    ← List.append_assoc, ← he]
  rfl

theorem Disk.canonicalize_ok {r : OsStr} (hr : fs.canonicalize p = .ok r) :
    ∃ l, FileSystem.canonicalize fs (Path.ofText p) = .ok l ∧ r = locationText l := by
  unfold Disk.canonicalize at hr
  cases hc : FileSystem.canonicalize fs (Path.ofText p) with
  | error e => rw [hc] at hr; cases hr
  | ok l =>
      rw [hc] at hr
      exact ⟨l, rfl, (Except.ok.inj hr).symm⟩

/-- Whatever exists under the path is resolved to a place inside the root. -/
def ResolvesInside (fs : Disk) (root p : OsStr) : Prop :=
  ∀ r, fs.canonicalize p = .ok r → withinRoot root r = true

/-- A resolved root is inside itself; one that does not resolve does not exist. -/
theorem resolvesInside_root (hr : root ∈ resolvedRoots h fs) :
    isAbsolute root = true ∧ ResolvesInside fs root root := by
  obtain ⟨abs, habs, rfl⟩ := List.mem_map.mp hr
  obtain ⟨-, habs⟩ := List.mem_filter.mp habs
  split
  · rename_i resolved hc
    obtain ⟨l, hl, rfl⟩ := Disk.canonicalize_ok hc
    refine ⟨isAbsolute_locationText l, fun r hr => ?_⟩
    have hself := canonicalize_locationText (FileSystem.clear_of_canonicalize hl)
    rw [Disk.canonicalize, hself] at hr
    rw [← Except.ok.inj hr]
    exact withinRoot_self _
  · rename_i e hc
    exact ⟨habs, fun r hr => by rw [hc] at hr; cases hr⟩

/-! ### The search for links -/

/-- The path that results from going on by some components. -/
def extend (p : OsStr) (cs : List (Component OsChar)) : OsStr :=
  cs.foldl (fun q c => join q (componentText c)) p

theorem canonicalize_extend (hp : isAbsolute p = true) {l : List FileName} {r : OsStr}
    (hr : fs.canonicalize (extend p (nameComponents l)) = .ok r) :
    ∃ r', fs.canonicalize p = .ok r' := by
  induction l generalizing p with
  | nil => exact ⟨r, hr⟩
  | cons n l ih =>
      obtain ⟨r', hr'⟩ := ih ((isAbsolute_join n.isAbsolute_eq).trans hp) hr
      obtain ⟨m, hm, -⟩ := Disk.canonicalize_ok hr'
      obtain ⟨dir, k, x, hl, -⟩ := locate_of_canonicalize hp hm
      exact ⟨locationText dir, by rw [Disk.canonicalize, canonicalize_of_locate hp hl]; rfl⟩

theorem resolvesInside_join (hp : isAbsolute p = true) (hin : ResolvesInside fs root p)
    {x : Node FileName} (hx : fs.symlinkMetadata (join p n.1) = .ok x)
    (hlink : x.isSymlink = false) : ResolvesInside fs root (join p n.1) := by
  intro r hr
  obtain ⟨m, hm, rfl⟩ := Disk.canonicalize_ok hr
  obtain ⟨dir, k, y, hl, hy⟩ := locate_of_canonicalize hp hm
  rw [Disk.symlinkMetadata, symlinkMetadata_join hp, hl] at hx
  obtain rfl : y = x := Except.ok.inj hx
  have hdir : fs.canonicalize p = .ok (locationText dir) := by
    rw [Disk.canonicalize, canonicalize_of_locate hp hl]
    rfl
  rw [hy hlink]
  exact withinRoot_concat (hin _ hdir) n

theorem resolvesInside_of_missing {e : Errno} (hp : isAbsolute p = true)
    (hx : fs.symlinkMetadata (join p n.1) = .error e) (l : List FileName) :
    ResolvesInside fs root (extend (join p n.1) (nameComponents l)) := by
  intro r hr
  obtain ⟨r', hr'⟩ := canonicalize_extend ((isAbsolute_join n.isAbsolute_eq).trans hp) hr
  obtain ⟨m, hm, -⟩ := Disk.canonicalize_ok hr'
  obtain ⟨dir, j, x, hl, -⟩ := locate_of_canonicalize hp hm
  rw [Disk.symlinkMetadata, symlinkMetadata_join hp, hl] at hx
  cases hx

/-- One round of the search: the name is not there, or it is inside and the search goes on. -/
theorem search_cons {rest : List (Component OsChar)} (hp : isAbsolute p = true)
    (hin : ResolvesInside fs root p)
    (hs : unsafeSymlinkFrom fs root p (.normal n.1 :: rest) = false) :
    (∃ e, fs.symlinkMetadata (join p n.1) = .error e) ∨
      ResolvesInside fs root (join p n.1) ∧
        unsafeSymlinkFrom fs root (join p n.1) rest = false := by
  rw [unsafeSymlinkFrom] at hs
  cases hx : fs.symlinkMetadata (join p n.1) with
  | error e => exact .inl ⟨e, rfl⟩
  | ok x =>
      right
      rw [hx] at hs
      simp only at hs
      split at hs
      case isTrue hlink =>
          split at hs
          · cases hs
          · rename_i resolved hc
            split at hs
            · rename_i hw
              refine ⟨fun r hr => ?_, hs⟩
              rw [hc] at hr
              rw [← Except.ok.inj hr]
              exact hw
            · cases hs
      case isFalse hlink =>
          exact ⟨resolvesInside_join hp hin hx (Bool.not_eq_true _ ▸ hlink), hs⟩

/-- **The search for links**: when it finds none that leads out, every prefix it went over is
inside. -/
theorem resolvesInside_of_search (hp : isAbsolute p = true) (hin : ResolvesInside fs root p)
    {l : List FileName} (hs : unsafeSymlinkFrom fs root p (nameComponents l) = false) (k : ℕ) :
    ResolvesInside fs root (extend p (nameComponents (l.take k))) := by
  induction l generalizing p k with
  | nil =>
      rw [List.take_nil]
      exact hin
  | cons n l ih =>
      cases k with
      | zero => exact hin
      | succ k =>
          have hcons : extend p (nameComponents ((n :: l).take (k + 1))) =
              extend (join p n.1) (nameComponents (l.take k)) := rfl
          rw [hcons]
          obtain ⟨e, hx⟩ | ⟨hin', hs'⟩ := search_cons hp hin hs
          · exact resolvesInside_of_missing hp hx _
          · exact ih ((isAbsolute_join n.isAbsolute_eq).trans hp) hin' hs' k

/-! ### `get_log_dir` -/

theorem resolveRootLogDir_ok (hr : resolveRootLogDir h fs p = .ok q) :
    q = p ∧ isAbsolute p = true ∧ ∃ root ∈ resolvedRoots h fs,
      withinRoot root p = true ∧ matchResolvedRoot fs root p = true := by
  unfold resolveRootLogDir at hr
  split at hr
  · cases hr
  · rename_i habs
    split at hr
    · rename_i hany
      obtain ⟨root, hmem, hw⟩ := List.any_eq_true.mp hany
      rw [Bool.and_eq_true] at hw
      exact ⟨(Except.ok.inj hr).symm, by simpa using habs, root, hmem, hw⟩
    · cases hr

theorem getLogDir_system {dir : String} (hs : h.systemMode = true) (hd : dir ≠ "")
    (hg : getLogDir h fs dir = .ok p) : resolveRootLogDir h fs (OsStr.ofString dir) = .ok p := by
  unfold getLogDir resolveConfiguredDir at hg
  rw [if_neg hd, if_pos hs] at hg
  split at hg
  · cases hg
  · split at hg
    · cases hg
    · exact hg

/-- **What `get_log_dir` accepts in system mode**: an absolute path that consists of a resolved
root and names; where it exists it is inside the root, and where it does not, every prefix from the
root on that does exist is. -/
theorem getLogDir_inside (h : Host) (fs : Disk) (dir : String) (p : OsStr)
    (hs : h.systemMode = true) (hd : dir ≠ "") (hg : getLogDir h fs dir = .ok p) :
    isAbsolute p = true ∧ ∃ root ∈ resolvedRoots h fs, ∃ rel,
      components p = components root ++ rel ∧ .parentDir ∉ rel ∧ ResolvesInside fs root p ∧
      ((∀ r, fs.canonicalize p ≠ .ok r) →
        ∀ k, ResolvesInside fs root (extend root (rel.take k))) := by
  obtain ⟨rfl, habs, root, hroot, hw, hm⟩ := resolveRootLogDir_ok (getLogDir_system hs hd hg)
  obtain ⟨hrabs, hrin⟩ := resolvesInside_root hroot
  obtain ⟨rel, he, hup⟩ := withinRoot_iff.mp hw
  refine ⟨habs, root, hroot, rel, he, hup, ?_, ?_⟩
  · intro r hr
    rw [matchResolvedRoot, hr] at hm
    exact hm
  · intro hnone k
    have hne : components root ≠ [] := by simp [components_of_isAbsolute hrabs]
    obtain ⟨l, rfl⟩ := exists_names_of_append _ habs hne he hup
    have hsearch : unsafeSymlinkFrom fs root root (nameComponents l) = false := by
      unfold matchResolvedRoot at hm
      split at hm
      · rename_i r hr
        exact absurd hr (hnone r)
      · rw [Bool.and_eq_true, pathContainsUnsafeSymlink, stripPrefix, he,
          if_pos (List.isPrefixOf_iff_prefix.mpr (List.prefix_append _ _)), List.drop_left] at hm
        simpa using hm.2
    rw [nameComponents, ← List.map_take]
    exact resolvesInside_of_search hrabs hrin hsearch k

/-- A system with the log root and, in it, a directory `c` and a link `a` to `/tmp`, from where a
link leads back to `c`. -/
def crossedDisk : Disk where
  tree := Tree.ofEntries
    [([], .dir 0), (location "/var", .dir 1), (location "/var/log", .dir 2),
      (location "/var/log/glyndor", .dir 3), (location "/var/log/glyndor/unitpm", .dir 4),
      (location "/var/log/glyndor/unitpm/c", .dir 5),
      (location "/var/log/glyndor/unitpm/a", .symlink (Path.ofText (OsStr.ofString "/tmp"))),
      (location "/tmp", .dir 6),
      (location "/tmp/b",
        .symlink (Path.ofText (OsStr.ofString "/var/log/glyndor/unitpm/c")))]
    (by decide +kernel) (by decide +kernel)
  cwd := []
  contents _ := []
  owner _ := 0
  readable _ := true
  writable _ := true
  nextIno := 7

theorem getLogDir_inside_new :
    isAbsolute (OsStr.ofString "/var/log/glyndor/unitpm/c/new") = true ∧
      ∃ root ∈ resolvedRoots (plainHost true cleanEnv) crossedDisk, ∃ rel,
        components (OsStr.ofString "/var/log/glyndor/unitpm/c/new") = components root ++ rel ∧
        .parentDir ∉ rel ∧
        ResolvesInside crossedDisk root (OsStr.ofString "/var/log/glyndor/unitpm/c/new") ∧
        ((∀ r, crossedDisk.canonicalize (OsStr.ofString "/var/log/glyndor/unitpm/c/new") ≠ .ok r) →
          ∀ k, ResolvesInside crossedDisk root (extend root (rel.take k))) :=
  getLogDir_inside (plainHost true cleanEnv) crossedDisk "/var/log/glyndor/unitpm/c/new" _
    (by decide +kernel) (by decide +kernel) (by decide +kernel)

/-- `a/b` is inside the log root, and the way to it is not. -/
theorem getLogDir_through_outside :
    getLogDir (plainHost true cleanEnv) crossedDisk "/var/log/glyndor/unitpm/a/b" =
        .ok (OsStr.ofString "/var/log/glyndor/unitpm/a/b") ∧
      resolvedRoots (plainHost true cleanEnv) crossedDisk = [OsStr.ofString logRoot] ∧
      extend (OsStr.ofString logRoot) [.normal (OsStr.ofString "a")] =
        OsStr.ofString "/var/log/glyndor/unitpm/a" ∧
      crossedDisk.canonicalize (OsStr.ofString "/var/log/glyndor/unitpm/a") =
        .ok (OsStr.ofString "/tmp") ∧
      withinRoot (OsStr.ofString logRoot) (OsStr.ofString "/tmp") = false := by
  refine ⟨by decide +kernel, by decide +kernel, by decide +kernel, by decide +kernel, ?_⟩
  decide +kernel

end Unitpm
