import Mathlib.Data.List.Infix
import Mathlib.Tactic.Common

/-! # File systems with symbolic links

A tree of directories, files and symbolic links over any type of names, and the walk of a path
through it.  A location is the list of names from the root; what is there is `Tree.node`.
Directories may refuse to be searched, and a file is known by its inode, so that two locations
may be the same file.

`walk` is the kernel's path walk with a budget of links: `..` leaves the directory reached, not
the text; a link is replaced by its target, relative to the directory it is in.  The two results
the rest is built on are `walk_append` (a path is walked in parts) and `Clear.walk`: the location
that a walk from the root has reached has no links on the way to it. -/

namespace Fs

/-- A segment of a path: nothing (`a//b`, or the end of `a/`), `.`, `..` or a name. -/
inductive Seg (ν : Type) where
  | slash
  | dot
  | up
  | name (n : ν)
deriving DecidableEq

/-- The segments that lead somewhere else. -/
def Seg.moves {ν : Type} : Seg ν → Bool
  | slash => false
  | dot => false
  | up => true
  | name _ => true

structure Path (ν : Type) where
  absolute : Bool
  segs : List (Seg ν)
deriving DecidableEq

inductive Node (ν : Type) where
  | dir (ino : ℕ)
  | file (ino : ℕ)
  | special (ino : ℕ)
  | symlink (target : Path ν)
deriving DecidableEq

namespace Node

variable {ν : Type}

def isDir : Node ν → Bool
  | dir _ => true
  | _ => false

def isSymlink : Node ν → Bool
  | symlink _ => true
  | _ => false

/-- What `remove_dir_all` removes: a directory, or a link itself. -/
def isRemovable : Node ν → Bool
  | dir _ => true
  | symlink _ => true
  | _ => false

theorem exists_of_isSymlink {x : Node ν} (hx : x.isSymlink = true) : ∃ p, x = symlink p := by
  cases x with
  | symlink p => exact ⟨p, rfl⟩
  | _ => cases hx

end Node

/-- The `io::ErrorKind`s of path resolution. -/
inductive Errno where
  | notFound
  | notADirectory
  | isADirectory
  | permissionDenied
  | filesystemLoop
deriving DecidableEq

/-- `Display for io::Error`. -/
def Errno.toText : Errno → String
  | notFound => "No such file or directory (os error 2)"
  | notADirectory => "Not a directory (os error 20)"
  | isADirectory => "Is a directory (os error 21)"
  | permissionDenied => "Permission denied (os error 13)"
  | filesystemLoop => "Too many levels of symbolic links (os error 40)"

/-- What is where: everything but the root is in a directory. -/
structure Tree (ν : Type) where
  node : List ν → Option (Node ν)
  searchable : List ν → Bool
  root : (node []).any Node.isDir = true
  parent : ∀ l n, (node (l ++ [n])).isSome → (node l).any Node.isDir = true

/-- How many links one resolution may follow. -/
def maxLinks : ℕ := 40

variable {ν : Type}

namespace Tree

variable (t : Tree ν)

def isDir (l : List ν) : Bool := (t.node l).any Node.isDir

/-- What a name stands for in a directory. -/
def lookup (cur : List ν) (n : ν) : Except Errno (Node ν) :=
  if t.isDir cur = false then .error .notADirectory
  else if t.searchable cur = false then .error .permissionDenied
  else match t.node (cur ++ [n]) with
    | none => .error .notFound
    | some x => .ok x

/-- Walk up to the first link, which is left to `follow`.  With `create`, the last name need not
be there. -/
def walkWith (create : Bool) (links : ℕ)
    (follow : List ν → Path ν → List (Seg ν) → Except Errno (List ν × ℕ)) :
    List ν → List (Seg ν) → Except Errno (List ν × ℕ)
  | cur, [] => .ok (cur, links)
  | cur, .slash :: rest =>
      if t.isDir cur = false then .error .notADirectory else walkWith create links follow cur rest
  | cur, .dot :: rest =>
      if t.isDir cur = false then .error .notADirectory
      else if t.searchable cur = false then .error .permissionDenied
      else walkWith create links follow cur rest
  | cur, .up :: rest =>
      if t.isDir cur = false then .error .notADirectory
      else if t.searchable cur = false then .error .permissionDenied
      else walkWith create links follow cur.dropLast rest
  | cur, .name n :: rest =>
      match t.lookup cur n with
      | .error e =>
          if e = .notFound ∧ create ∧ rest = [] then .ok (cur ++ [n], links) else .error e
      | .ok (.symlink p) => follow cur p rest
      | .ok _ => walkWith create links follow (cur ++ [n]) rest

/-- The walk from a location along the segments of a path, with a budget of links: where it ends,
and what is left of the budget. -/
def walk (create : Bool) : ℕ → List ν → List (Seg ν) → Except Errno (List ν × ℕ)
  | 0 => t.walkWith create 0 fun _ _ _ => .error .filesystemLoop
  | k + 1 => t.walkWith create (k + 1) fun cur p rest =>
      walk create k (if p.absolute then [] else cur) (p.segs ++ rest)

/-! ### One segment -/

variable {t} {create : Bool} {k : ℕ} {cur : List ν} {n : ν} {rest : List (Seg ν)}

@[simp] theorem walk_nil : t.walk create k cur [] = .ok (cur, k) := by cases k <;> rfl

theorem walk_slash : t.walk create k cur (.slash :: rest) =
    if t.isDir cur = false then .error .notADirectory else t.walk create k cur rest := by
  cases k <;> rfl

theorem walk_dot : t.walk create k cur (.dot :: rest) =
    if t.isDir cur = false then .error .notADirectory
    else if t.searchable cur = false then .error .permissionDenied
    else t.walk create k cur rest := by
  cases k <;> rfl

theorem walk_up : t.walk create k cur (.up :: rest) =
    if t.isDir cur = false then .error .notADirectory
    else if t.searchable cur = false then .error .permissionDenied
    else t.walk create k cur.dropLast rest := by
  cases k <;> rfl

theorem walk_name_error {e : Errno} (h : t.lookup cur n = .error e) :
    t.walk false k cur (.name n :: rest) = .error e := by
  cases k <;> simp [walk, walkWith, h]

theorem walk_name_node {x : Node ν} (h : t.lookup cur n = .ok x) (hx : x.isSymlink = false) :
    t.walk create k cur (.name n :: rest) = t.walk create k (cur ++ [n]) rest := by
  cases x with
  | symlink p => cases hx
  | _ => cases k <;> simp [walk, walkWith, h]

theorem walk_name_loop {p : Path ν} (h : t.lookup cur n = .ok (.symlink p)) :
    t.walk create 0 cur (.name n :: rest) = .error .filesystemLoop := by
  simp [walk, walkWith, h]

theorem walk_name_link {p : Path ν} (h : t.lookup cur n = .ok (.symlink p)) :
    t.walk create (k + 1) cur (.name n :: rest) =
      t.walk create k (if p.absolute then [] else cur) (p.segs ++ rest) := by
  simp [walk, walkWith, h]

/-- Induction along a walk: the budget falls at a link, the path gets shorter elsewhere. -/
theorem walk_induction {motive : ℕ → List ν → List (Seg ν) → Prop}
    (nil : ∀ k cur, motive k cur [])
    (slash : ∀ k cur rest, motive k cur rest → motive k cur (.slash :: rest))
    (dot : ∀ k cur rest, motive k cur rest → motive k cur (.dot :: rest))
    (up : ∀ k cur rest, motive k cur.dropLast rest → motive k cur (.up :: rest))
    (name : ∀ k cur n rest, motive k (cur ++ [n]) rest →
      (∀ j, k = j + 1 → ∀ cur segs, motive j cur segs) → motive k cur (.name n :: rest)) :
    ∀ k cur segs, motive k cur segs := by
  have inner : ∀ k, (∀ j, k = j + 1 → ∀ cur segs, motive j cur segs) →
      ∀ segs cur, motive k cur segs := by
    intro k ih segs
    induction segs with
    | nil => exact fun cur => nil k cur
    | cons s segs ihs =>
        intro cur
        cases s with
        | slash => exact slash k cur segs (ihs cur)
        | dot => exact dot k cur segs (ihs cur)
        | up => exact up k cur segs (ihs _)
        | name n => exact name k cur n segs (ihs _) ih
  intro k
  induction k with
  | zero => exact fun cur segs => inner 0 (fun j hj => by omega) segs cur
  | succ k ih =>
      refine fun cur segs => inner (k + 1) (fun j hj => ?_) segs cur
      obtain rfl : k = j := by omega
      exact ih

/-- Induction along a walk that arrives: every directory on the way can be searched and every name
found. -/
theorem walk_ok_induction {r : List ν × ℕ} {motive : ℕ → List ν → List (Seg ν) → Prop}
    (nil : motive r.2 r.1 [])
    (slash : ∀ k cur rest, t.isDir cur = true → motive k cur rest → motive k cur (.slash :: rest))
    (dot : ∀ k cur rest, t.isDir cur = true → t.searchable cur = true → motive k cur rest →
      motive k cur (.dot :: rest))
    (up : ∀ k cur rest, t.isDir cur = true → t.searchable cur = true →
      motive k cur.dropLast rest → motive k cur (.up :: rest))
    (node : ∀ k cur n x rest, t.lookup cur n = .ok x → x.isSymlink = false →
      motive k (cur ++ [n]) rest → motive k cur (.name n :: rest))
    (link : ∀ k cur n p rest, t.lookup cur n = .ok (.symlink p) →
      motive k (if p.absolute then [] else cur) (p.segs ++ rest) →
        motive (k + 1) cur (.name n :: rest)) :
    ∀ k cur segs, t.walk false k cur segs = .ok r → motive k cur segs := by
  intro k cur segs
  induction k, cur, segs using walk_induction with
  | nil k cur =>
      intro hw
      rw [walk_nil] at hw
      obtain rfl := Except.ok.inj hw
      exact nil
  | slash k cur rest ih =>
      intro hw
      rw [walk_slash] at hw
      split_ifs at hw with hd
      exact slash k cur rest (by simpa using hd) (ih hw)
  | dot k cur rest ih =>
      intro hw
      rw [walk_dot] at hw
      split_ifs at hw with hd hs
      exact dot k cur rest (by simpa using hd) (by simpa using hs) (ih hw)
  | up k cur rest ih =>
      intro hw
      rw [walk_up] at hw
      split_ifs at hw with hd hs
      exact up k cur rest (by simpa using hd) (by simpa using hs) (ih hw)
  | name k cur n rest ih ihl =>
      intro hw
      cases hl : t.lookup cur n with
      | error e =>
          rw [walk_name_error hl] at hw
          cases hw
      | ok x =>
          cases hx : x.isSymlink with
          | false =>
              rw [walk_name_node hl hx] at hw
              exact node k cur n x rest hl hx (ih hw)
          | true =>
              obtain ⟨p, rfl⟩ := Node.exists_of_isSymlink hx
              cases k with
              | zero =>
                  rw [walk_name_loop hl] at hw
                  cases hw
              | succ j =>
                  rw [walk_name_link hl] at hw
                  exact link j cur n p rest hl (ihl j rfl _ _ hw)

/-! ### Paths in parts -/

/-- **Composition**: a path is walked in parts. -/
theorem walk_append (k : ℕ) (cur : List ν) (a b : List (Seg ν)) :
    t.walk false k cur (a ++ b) =
      match t.walk false k cur a with
      | .error e => .error e
      | .ok (cur, k) => t.walk false k cur b := by
  induction k, cur, a using walk_induction with
  | nil k cur => simp
  | slash k cur rest ih =>
      rw [List.cons_append, walk_slash, walk_slash]
      split
      · rfl
      · exact ih
  | dot k cur rest ih =>
      rw [List.cons_append, walk_dot, walk_dot]
      split
      · rfl
      · split
        · rfl
        · exact ih
  | up k cur rest ih =>
      rw [List.cons_append, walk_up, walk_up]
      split
      · rfl
      · split
        · rfl
        · exact ih
  | name k cur n rest ih ihl =>
      rw [List.cons_append]
      cases hl : t.lookup cur n with
      | error e => rw [walk_name_error hl, walk_name_error hl]
      | ok x =>
          cases hx : x.isSymlink with
          | false => rw [walk_name_node hl hx, walk_name_node hl hx]; exact ih
          | true =>
              obtain ⟨p, rfl⟩ := Node.exists_of_isSymlink hx
              cases k with
              | zero => rw [walk_name_loop hl, walk_name_loop hl]
              | succ j =>
                  rw [walk_name_link hl, walk_name_link hl, ← List.append_assoc]
                  exact ihl j rfl _ _

/-- The segments that lead nowhere can be left out of a path that arrives. -/
theorem walk_filter_moves {segs : List (Seg ν)} {r : List ν × ℕ}
    (hw : t.walk false k cur segs = .ok r) :
    t.walk false k cur (segs.filter Seg.moves) = .ok r := by
  induction segs generalizing k cur with
  | nil => exact hw
  | cons s segs ih =>
      cases s with
      | slash =>
          rw [walk_slash] at hw
          split_ifs at hw
          exact ih hw
      | dot =>
          rw [walk_dot] at hw
          split_ifs at hw
          exact ih hw
      | up =>
          rw [List.filter_cons_of_pos rfl, walk_up]
          rw [walk_up] at hw
          split_ifs at hw with hd hs
          rw [if_neg hd, if_neg hs]
          exact ih hw
      | name n =>
          rw [← List.singleton_append, walk_append] at hw
          rw [List.filter_cons_of_pos rfl, ← List.singleton_append, walk_append]
          cases hn : t.walk false k cur [.name n] with
          | error e => rw [hn] at hw; cases hw
          | ok q =>
              rw [hn] at hw
              exact ih hw

theorem isDir_dropLast {l : List ν} (hl : t.isDir l = true) : t.isDir l.dropLast = true := by
  rcases List.eq_nil_or_concat l with rfl | ⟨m, n, rfl⟩
  · exact hl
  · rw [List.concat_eq_append] at hl ⊢
    rw [List.dropLast_concat]
    refine t.parent m n ?_
    unfold isDir at hl
    cases hn : t.node (m ++ [n]) with
    | none => rw [hn] at hl; cases hl
    | some x => rfl

/-- A path that does not end in a name leads to a directory. -/
theorem isDir_of_walk {segs : List (Seg ν)} {s : Seg ν} {r : List ν × ℕ}
    (hs : ∀ n, s ≠ .name n) (hw : t.walk false k cur (segs ++ [s]) = .ok r) :
    t.isDir r.1 = true := by
  rw [walk_append] at hw
  cases hsegs : t.walk false k cur segs with
  | error e => rw [hsegs] at hw; cases hw
  | ok q =>
      rw [hsegs] at hw
      simp only at hw
      cases s with
      | slash =>
          rw [walk_slash] at hw
          split_ifs at hw with hd
          rw [walk_nil] at hw
          rw [← Except.ok.inj hw]
          simpa using hd
      | dot =>
          rw [walk_dot] at hw
          split_ifs at hw with hd hsearch
          rw [walk_nil] at hw
          rw [← Except.ok.inj hw]
          simpa using hd
      | up =>
          rw [walk_up] at hw
          split_ifs at hw with hd hsearch
          rw [walk_nil] at hw
          rw [← Except.ok.inj hw]
          exact isDir_dropLast (by simpa using hd)
      | name n => exact absurd rfl (hs n)

/-! ### Locations -/

theorem lookup_ok {x : Node ν} (h : t.lookup cur n = .ok x) :
    t.node (cur ++ [n]) = some x := by
  unfold lookup at h
  split at h
  · cases h
  · split at h
    · cases h
    · split at h
      · cases h
      · rename_i hn
        rw [hn, Except.ok.inj h]

/-- Every step of the location can be looked up and is no link. -/
def Clear (t : Tree ν) (l : List ν) : Prop :=
  ∀ a n, a ++ [n] <+: l → ∃ x, t.lookup a n = .ok x ∧ x.isSymlink = false

theorem clear_nil : t.Clear [] := by
  intro a n h
  simp at h

theorem Clear.of_prefix {l m : List ν} (hm : t.Clear m) (h : l <+: m) : t.Clear l :=
  fun a n ha => hm a n (ha.trans h)

theorem Clear.concat {x : Node ν} (hc : t.Clear cur) (h : t.lookup cur n = .ok x)
    (hx : x.isSymlink = false) : t.Clear (cur ++ [n]) := by
  intro a m ha
  rcases List.prefix_concat_iff.mp ha with he | ha
  · obtain ⟨rfl, hm⟩ := List.append_inj' he rfl
    obtain rfl := List.singleton_inj.mp hm
    exact ⟨x, h, hx⟩
  · exact hc a m ha

/-- What holds something is a directory. -/
theorem isDir_of_prefix {l m : List ν} (hlm : l <+: m) (hne : l ≠ m)
    (hm : (t.node m).isSome = true) : t.isDir l = true := by
  obtain ⟨a, rfl⟩ := hlm
  induction a using List.reverseRecOn with
  | nil => simp at hne
  | append_singleton a n ih =>
      rw [← List.append_assoc] at hm
      have hd := t.parent (l ++ a) n hm
      by_cases ha : a = []
      · rw [ha, List.append_nil] at hd
        exact hd
      · refine ih (by simpa using ha) ?_
        cases hn : t.node (l ++ a) with
        | none => rw [hn] at hd; cases hd
        | some x => rfl

theorem Clear.isSome_node {l : List ν} (hl : t.Clear l) : (t.node l).isSome = true := by
  rcases List.eq_nil_or_concat l with rfl | ⟨m, n, rfl⟩
  · have hroot := t.root
    cases hn : t.node [] with
    | none => rw [hn] at hroot; cases hroot
    | some x => rfl
  · rw [List.concat_eq_append] at hl ⊢
    obtain ⟨x, hx, -⟩ := hl m n List.prefix_rfl
    rw [lookup_ok hx]
    rfl

/-- **A walk from a clear location ends in one.** -/
theorem Clear.walk {segs : List (Seg ν)} {r : List ν × ℕ} (hc : t.Clear cur)
    (hw : t.walk false k cur segs = .ok r) : t.Clear r.1 := by
  refine walk_ok_induction (motive := fun _ cur _ => t.Clear cur → t.Clear r.1)
    ?nil ?slash ?dot ?up ?node ?link k cur segs hw hc
  case nil => exact fun hc => hc
  case slash => exact fun _ _ _ _ ih => ih
  case dot => exact fun _ _ _ _ _ ih => ih
  case up => exact fun _ cur _ _ _ ih hc => ih (hc.of_prefix (List.dropLast_prefix cur))
  case node => exact fun _ _ _ _ _ hl hx ih hc => ih (hc.concat hl hx)
  case link =>
    intro _ cur _ p _ _ ih hc
    apply ih
    split
    · exact clear_nil
    · exact hc

/-- What is there is found there also when it might have been created. -/
theorem walk_create_of_walk {segs : List (Seg ν)} {r : List ν × ℕ}
    (hw : t.walk false k cur segs = .ok r) : t.walk true k cur segs = .ok r := by
  refine walk_ok_induction (motive := fun k cur segs => t.walk true k cur segs = .ok r)
    ?nil ?slash ?dot ?up ?node ?link k cur segs hw
  case nil => exact walk_nil
  case slash =>
    intro k cur rest hd ih
    rw [walk_slash, hd]
    exact ih
  case dot =>
    intro k cur rest hd hs ih
    rw [walk_dot, hd, hs]
    exact ih
  case up =>
    intro k cur rest hd hs ih
    rw [walk_up, hd, hs]
    exact ih
  case node =>
    intro k cur n x rest hl hx ih
    rw [walk_name_node hl hx]
    exact ih
  case link =>
    intro k cur n p rest hl ih
    rw [walk_name_link hl]
    exact ih

/-! ### The last name of a path -/

/-- The directory the last name is in, the budget left there, and what the name stands for. -/
def locate (t : Tree ν) (k : ℕ) (cur : List ν) (segs : List (Seg ν)) (n : ν) :
    Except Errno (List ν × ℕ × Node ν) :=
  match t.walk false k cur segs with
  | .error e => .error e
  | .ok (dir, j) =>
      match t.lookup dir n with
      | .error e => .error e
      | .ok x => .ok (dir, j, x)

theorem locate_ok {segs : List (Seg ν)} {dir : List ν} {j : ℕ} {x : Node ν} :
    t.locate k cur segs n = .ok (dir, j, x) ↔
      t.walk false k cur segs = .ok (dir, j) ∧ t.lookup dir n = .ok x := by
  unfold locate
  cases t.walk false k cur segs with
  | error e => simp
  | ok r =>
      obtain ⟨d, i⟩ := r
      simp only
      cases hl : t.lookup d n with
      | error e =>
          simp only [reduceCtorEq, Except.ok.injEq, Prod.mk.injEq, false_iff, not_and]
          rintro ⟨rfl, rfl⟩
          simp [hl]
      | ok y =>
          simp only [Except.ok.injEq, Prod.mk.injEq]
          constructor
          · rintro ⟨rfl, rfl, rfl⟩
            exact ⟨⟨rfl, rfl⟩, hl⟩
          · rintro ⟨⟨rfl, rfl⟩, h⟩
            exact ⟨rfl, rfl, Except.ok.inj (hl.symm.trans h)⟩

theorem locate_slash (segs : List (Seg ν)) :
    t.locate k cur (segs ++ [.slash]) n = t.locate k cur segs n := by
  unfold locate
  rw [walk_append]
  cases t.walk false k cur segs with
  | error e => rfl
  | ok r =>
      simp only
      rw [walk_slash]
      by_cases hd : t.isDir r.1 = false
      · rw [if_pos hd, lookup, if_pos hd]
      · rw [if_neg hd, walk_nil]

theorem walk_concat_ok {segs : List (Seg ν)} {r : List ν × ℕ}
    (hw : t.walk false k cur (segs ++ [.name n]) = .ok r) :
    ∃ dir j x, t.locate k cur segs n = .ok (dir, j, x) ∧
      (x.isSymlink = false → r.1 = dir ++ [n]) := by
  rw [walk_append] at hw
  cases hs : t.walk false k cur segs with
  | error e => rw [hs] at hw; cases hw
  | ok q =>
      obtain ⟨dir, j⟩ := q
      rw [hs] at hw
      simp only at hw
      cases hl : t.lookup dir n with
      | error e => rw [walk_name_error hl] at hw; cases hw
      | ok x =>
          refine ⟨dir, j, x, locate_ok.mpr ⟨hs, hl⟩, fun hx => ?_⟩
          rw [walk_name_node hl hx, walk_nil] at hw
          rw [← Except.ok.inj hw]

/-! ### A new file -/

/-- The tree with a file where there was nothing. -/
def addFile [DecidableEq ν] (t : Tree ν) (l : List ν) (ino : ℕ) (hl : l ≠ [])
    (hd : t.isDir l.dropLast = true) (hn : t.node l = none) : Tree ν where
  node q := if q = l then some (.file ino) else t.node q
  searchable := t.searchable
  root := by rw [if_neg hl.symm]; exact t.root
  parent := by
    intro q n h
    by_cases hq : q ++ [n] = l
    · have hql : q ≠ l := by rintro rfl; simp at hq
      rw [if_neg hql]
      rw [← hq, List.dropLast_concat] at hd
      exact hd
    · rw [if_neg hq] at h
      have hp := t.parent q n h
      have hql : q ≠ l := by
        rintro rfl
        rw [hn] at hp
        cases hp
      rw [if_neg hql]
      exact hp

/-- A finite tree, all of it searchable. -/
def ofEntries [DecidableEq ν] (entries : List (List ν × Node ν))
    (hroot : (entries.lookup []).any Node.isDir = true)
    (hdir : ∀ e ∈ entries, e.1 ≠ [] → (entries.lookup e.1.dropLast).any Node.isDir = true) :
    Tree ν where
  node l := entries.lookup l
  searchable _ := true
  root := hroot
  parent := by
    intro l n h
    obtain ⟨x, hx⟩ := Option.isSome_iff_exists.mp h
    have hm : (l ++ [n], x) ∈ entries := by
      rw [List.lookup_eq_some_iff] at hx
      obtain ⟨a, b, rfl, -⟩ := hx
      simp
    have := hdir _ hm (by simp)
    rwa [List.dropLast_concat] at this

end Tree

/-! ### Removing -/

/-- What cannot be removed; a directory that holds such an entry stays with it. -/
structure Stays (ν : Type) where
  stays : List ν → Bool
  closed : ∀ l n, stays (l ++ [n]) = true → stays l = true

theorem Stays.of_prefix (s : Stays ν) {l m : List ν} (hlm : l <+: m)
    (hm : s.stays m = true) : s.stays l = true := by
  obtain ⟨a, rfl⟩ := hlm
  induction a using List.reverseRecOn with
  | nil => simpa using hm
  | append_singleton a n ih =>
      rw [← List.append_assoc] at hm
      exact ih (s.closed _ n hm)

namespace Tree

/-- What is removed with a location: it and what is below it, but not the root. -/
def Removed (s : Stays ν) (l q : List ν) : Prop := q ≠ [] ∧ l <+: q ∧ s.stays q = false

instance [DecidableEq ν] (s : Stays ν) (l q : List ν) : Decidable (Removed s l q) :=
  inferInstanceAs (Decidable (_ ∧ _ ∧ _))

/-- The tree without a location and what is below it. -/
def remove [DecidableEq ν] (t : Tree ν) (s : Stays ν) (l : List ν) : Tree ν where
  node q := if Removed s l q then none else t.node q
  searchable := t.searchable
  root := by
    rw [if_neg fun h => h.1 rfl]
    exact t.root
  parent := by
    intro q n h
    by_cases hr : Removed s l (q ++ [n])
    · rw [if_pos hr] at h
      cases h
    · rw [if_neg hr] at h
      have hq : ¬ Removed s l q := by
        rintro ⟨-, hlq, hstays⟩
        refine hr ⟨by simp, hlq.trans (List.prefix_append q [n]), ?_⟩
        by_contra hqn
        rw [s.closed q n (by simpa using hqn)] at hstays
        cases hstays
      rw [if_neg hq]
      exact t.parent q n h

section Remove

variable [DecidableEq ν] {t : Tree ν} {s : Stays ν} {l q : List ν} {k : ℕ} {cur : List ν}

theorem node_remove : (t.remove s l).node q = if Removed s l q then none else t.node q := rfl

theorem node_of_remove {x : Node ν} (hx : (t.remove s l).node q = some x) : t.node q = some x := by
  rw [node_remove] at hx
  split_ifs at hx
  exact hx

theorem prefix_of_node_remove (hq : (t.remove s l).node q ≠ t.node q) : l <+: q := by
  by_contra hl
  exact hq (if_neg fun hr => hl hr.2.1)

theorem isDir_of_remove (hd : (t.remove s l).isDir q = true) : t.isDir q = true := by
  unfold isDir at hd ⊢
  cases hx : (t.remove s l).node q with
  | none => rw [hx] at hd; cases hd
  | some x =>
      rw [hx] at hd
      rw [node_of_remove hx]
      exact hd

theorem lookup_of_remove {n : ν} {x : Node ν} (hl : (t.remove s l).lookup cur n = .ok x) :
    t.lookup cur n = .ok x := by
  have hnode := node_of_remove (lookup_ok hl)
  unfold lookup at hl ⊢
  split_ifs at hl with hd hs
  have hs : ¬ t.searchable cur = false := hs
  rw [Bool.not_eq_false] at hd
  rw [if_neg (by simp [isDir_of_remove hd]), if_neg hs, hnode]

/-- **A walk that arrives after a removal has arrived there before.** -/
theorem walk_of_remove {segs : List (Seg ν)} {r : List ν × ℕ}
    (hw : (t.remove s l).walk false k cur segs = .ok r) : t.walk false k cur segs = .ok r := by
  refine walk_ok_induction (motive := fun k cur segs => t.walk false k cur segs = .ok r)
    ?nil ?slash ?dot ?up ?node ?link k cur segs hw
  case nil => exact walk_nil
  case slash =>
    intro k cur rest hd ih
    rw [walk_slash, isDir_of_remove hd]
    exact ih
  case dot =>
    intro k cur rest hd hs ih
    rw [walk_dot, isDir_of_remove hd, show t.searchable cur = true from hs]
    exact ih
  case up =>
    intro k cur rest hd hs ih
    rw [walk_up, isDir_of_remove hd, show t.searchable cur = true from hs]
    exact ih
  case node =>
    intro k cur n x rest hl hx ih
    rw [walk_name_node (lookup_of_remove hl) hx]
    exact ih
  case link =>
    intro k cur n p rest hl ih
    rw [walk_name_link (lookup_of_remove hl)]
    exact ih

end Remove

end Tree

/-! ### System calls -/

/-- A file system as a process sees it: the tree, its working directory and what is behind an
inode. -/
structure FileSystem (ν : Type) where
  tree : Tree ν
  cwd : List ν
  contents : ℕ → List UInt8
  owner : ℕ → ℕ
  readable : ℕ → Bool
  writable : ℕ → Bool
  nextIno : ℕ

namespace FileSystem

variable (fs : FileSystem ν)

/-- Where the walk of a path begins. -/
def start (p : Path ν) : List ν := if p.absolute then [] else fs.cwd

/-- The walk of a whole path; the empty path names nothing. -/
def resolve (create : Bool) (p : Path ν) : Except Errno (List ν) :=
  if p.absolute = false ∧ p.segs = [] then .error .notFound
  else (fs.tree.walk create maxLinks (fs.start p) p.segs).map Prod.fst

/-- `fs::canonicalize`.  A relative path is taken from the root through the working directory. -/
def canonicalize (p : Path ν) : Except Errno (List ν) :=
  if p.absolute = false ∧ p.segs = [] then .error .notFound
  else
    let segs := if p.absolute then p.segs else fs.cwd.map .name ++ p.segs
    (fs.tree.walk false maxLinks [] segs).map Prod.fst

/-- What is at a location that a walk has reached. -/
def nodeAt (l : List ν) : Except Errno (Node ν) :=
  match fs.tree.node l with
  | none => .error .notFound
  | some x => .ok x

/-- `fs::metadata`. -/
def metadata (p : Path ν) : Except Errno (Node ν) :=
  match fs.resolve false p with
  | .error e => .error e
  | .ok l => fs.nodeAt l

/-- `fs::symlink_metadata`: a link in the last place is not followed. -/
def symlinkMetadata (p : Path ν) : Except Errno (Node ν) :=
  match p.segs.getLast? with
  | some (.name n) =>
      match fs.tree.walk false maxLinks (fs.start p) p.segs.dropLast with
      | .error e => .error e
      | .ok (cur, _) => fs.tree.lookup cur n
  | _ => fs.metadata p

/-- What `File::open` opens for reading. -/
def openRead (p : Path ν) : Except Errno (Node ν) :=
  match fs.metadata p with
  | .error e => .error e
  | .ok (.file i) => if fs.readable i then .ok (.file i) else .error .permissionDenied
  | .ok (.special i) => if fs.readable i then .ok (.special i) else .error .permissionDenied
  | .ok (.dir i) => if fs.readable i then .ok (.dir i) else .error .permissionDenied
  | .ok (.symlink _) => .error .filesystemLoop

/-- The file with no contents. -/
def truncate (i : ℕ) : FileSystem ν := { fs with contents := Function.update fs.contents i [] }

/-- `File::create`. -/
def create [DecidableEq ν] (p : Path ν) : Except Errno (FileSystem ν) :=
  match fs.resolve true p with
  | .error e => .error e
  | .ok l =>
      match hn : fs.tree.node l with
      | some (.file i) => if fs.writable i then .ok (fs.truncate i) else .error .permissionDenied
      | some (.special i) => if fs.writable i then .ok fs else .error .permissionDenied
      | some (.dir _) => .error .isADirectory
      | some (.symlink _) => .error .filesystemLoop
      | none =>
          match fs.tree.node l.dropLast with
          | some (.dir i) =>
              if h : l ≠ [] ∧ fs.tree.isDir l.dropLast = true ∧ fs.writable i = true then
                .ok { fs.truncate fs.nextIno with
                  tree := fs.tree.addFile l fs.nextIno h.1 h.2.1 hn
                  nextIno := fs.nextIno + 1 }
              else .error .permissionDenied
          | _ => .error .notFound

/-- Where `symlink_metadata` looks: a link in the last place is not followed. -/
def lresolve (p : Path ν) : Except Errno (List ν) :=
  match p.segs.getLast? with
  | some (.name n) =>
      (fs.tree.locate maxLinks (fs.start p) p.segs.dropLast n).map fun r => r.1 ++ [n]
  | _ => fs.resolve false p

/-- `fs::remove_dir_all`, and whether it succeeds.  A link in the last place is removed itself, and
the root directory is never removed.  (A last `.` or `..` is not told from the directory it leads
to.) -/
def removeDirAll [DecidableEq ν] (s : Stays ν) (p : Path ν) : FileSystem ν × Bool :=
  match fs.lresolve p with
  | .error _ => (fs, false)
  | .ok l =>
      if (fs.tree.node l).any Node.isRemovable then
        ({ fs with tree := fs.tree.remove s l }, l ≠ [] && !s.stays l)
      else (fs, false)

variable {fs} {p : Path ν}

theorem canonicalize_of_absolute (hp : p.absolute = true) :
    fs.canonicalize p = (fs.tree.walk false maxLinks [] p.segs).map Prod.fst := by
  simp [canonicalize, hp]

theorem canonicalize_absolute_iff {l : List ν} (hp : p.absolute = true) :
    fs.canonicalize p = .ok l ↔ ∃ j, fs.tree.walk false maxLinks [] p.segs = .ok (l, j) := by
  rw [canonicalize_of_absolute hp]
  cases fs.tree.walk false maxLinks [] p.segs with
  | error e => simp [Except.map]
  | ok r => simp [Except.map, Prod.ext_iff]

/-- A relative path is walked from where the working directory leads. -/
theorem canonicalize_relative_iff {l : List ν} (hp : p.absolute = false) (hs : p.segs ≠ []) :
    fs.canonicalize p = .ok l ↔ ∃ cur k j,
      fs.tree.walk false maxLinks [] (fs.cwd.map .name) = .ok (cur, k) ∧
        fs.tree.walk false k cur p.segs = .ok (l, j) := by
  simp only [canonicalize, hp, hs, and_false, if_false, Bool.false_eq_true, Tree.walk_append]
  cases fs.tree.walk false maxLinks [] (fs.cwd.map .name) with
  | error e => simp [Except.map]
  | ok q =>
      obtain ⟨cur, k⟩ := q
      simp only [Except.ok.injEq, Prod.mk.injEq]
      cases hw : fs.tree.walk false k cur p.segs with
      | error e => simp [Except.map, hw]
      | ok r => simp [Except.map, hw, Prod.ext_iff]

theorem clear_of_canonicalize {l : List ν} (hl : fs.canonicalize p = .ok l) : fs.tree.Clear l := by
  unfold canonicalize at hl
  split at hl
  · cases hl
  · simp only at hl
    cases hw : fs.tree.walk false maxLinks []
        (if p.absolute then p.segs else fs.cwd.map .name ++ p.segs) with
    | error e => rw [hw] at hl; cases hl
    | ok r =>
        rw [hw] at hl
        obtain rfl : r.1 = l := Except.ok.inj hl
        exact Tree.clear_nil.walk hw

/-- A path that does not end in a name leads to a directory. -/
theorem isDir_of_resolve {l : List ν} (hname : ∀ n, p.segs.getLast? ≠ some (.name n))
    (hl : fs.resolve false p = .ok l) : fs.tree.isDir l = true := by
  unfold resolve at hl
  split at hl
  · cases hl
  · rename_i hne
    cases hw : fs.tree.walk false maxLinks (fs.start p) p.segs with
    | error e => rw [hw] at hl; cases hl
    | ok r =>
        rw [hw] at hl
        obtain rfl : r.1 = l := Except.ok.inj hl
        rcases List.eq_nil_or_concat p.segs with hnil | ⟨a, s, hs⟩
        · -- the path is `/`
          have habs : p.absolute = true := by
            by_contra h
            exact hne ⟨by simpa using h, hnil⟩
          have hstart : fs.start p = [] := by rw [start, if_pos habs]
          rw [hnil, Tree.walk_nil] at hw
          rw [← Except.ok.inj hw, hstart]
          exact fs.tree.root
        · rw [List.concat_eq_append] at hs
          rw [hs] at hw
          refine Tree.isDir_of_walk (fun n hn => hname n ?_) hw
          rw [hs, hn, List.getLast?_concat]

/-- A path at which there is a file ends in its name. -/
theorem exists_name_of_symlinkMetadata {i : ℕ} (hi : fs.symlinkMetadata p = .ok (.file i)) :
    ∃ a n dir k, p.segs = a ++ [.name n] ∧
      fs.tree.walk false maxLinks (fs.start p) a = .ok (dir, k) ∧
      fs.tree.lookup dir n = .ok (.file i) := by
  unfold symlinkMetadata at hi
  split at hi
  · rename_i n hlast
    obtain ⟨a, ha⟩ := List.getLast?_eq_some_iff.mp hlast
    rw [ha, List.dropLast_concat] at hi
    split at hi
    · cases hi
    · rename_i dir k hw
      exact ⟨a, n, dir, k, ha, hw, hi⟩
  · rename_i hname
    exfalso
    unfold metadata at hi
    split at hi
    · cases hi
    · rename_i l hl
      have hd := isDir_of_resolve hname hl
      unfold nodeAt at hi
      unfold Tree.isDir at hd
      split at hi
      · cases hi
      · rename_i x hx
        obtain rfl : x = .file i := Except.ok.inj hi
        rw [hx] at hd
        cases hd

theorem create_of_file [DecidableEq ν] {a : List (Seg ν)} {n : ν} {cur : List ν} {k i : ℕ}
    (hp : p.absolute = true) (hs : p.segs = a ++ [.name n])
    (hw : fs.tree.walk false maxLinks [] a = .ok (cur, k))
    (hl : fs.tree.lookup cur n = .ok (.file i)) :
    fs.create p = if fs.writable i then .ok (fs.truncate i) else .error .permissionDenied := by
  have hwalk : fs.tree.walk false maxLinks [] p.segs = .ok (cur ++ [n], k) := by
    rw [hs, Tree.walk_append, hw]
    simp only
    rw [Tree.walk_name_node hl rfl, Tree.walk_nil]
  have hr : fs.resolve true p = .ok (cur ++ [n]) := by
    simp only [resolve, hp, start, Bool.true_eq_false, false_and, if_false, if_true,
      Tree.walk_create_of_walk hwalk]
    rfl
  have hn := Tree.lookup_ok hl
  unfold create
  rw [hr]
  simp only
  split
  all_goals simp_all

theorem removeDirAll_of_removable [DecidableEq ν] {s : Stays ν} {l : List ν}
    (hl : fs.lresolve p = .ok l) (hr : (fs.tree.node l).any Node.isRemovable = true) :
    fs.removeDirAll s p = ({ fs with tree := fs.tree.remove s l }, l ≠ [] && !s.stays l) := by
  rw [removeDirAll, hl]
  exact if_pos hr

theorem removeDirAll_cases [DecidableEq ν] (fs : FileSystem ν) (s : Stays ν) (p : Path ν) :
    fs.removeDirAll s p = (fs, false) ∨
      ∃ l, fs.lresolve p = .ok l ∧ (fs.tree.node l).any Node.isRemovable = true ∧
        fs.removeDirAll s p =
          ({ fs with tree := fs.tree.remove s l }, l ≠ [] && !s.stays l) := by
  cases hl : fs.lresolve p with
  | error e => exact .inl (by rw [removeDirAll, hl])
  | ok l =>
      by_cases hr : (fs.tree.node l).any Node.isRemovable = true
      · exact .inr ⟨l, rfl, hr, removeDirAll_of_removable hl hr⟩
      · refine .inl ?_
        rw [removeDirAll, hl]
        exact if_neg hr

theorem canonicalize_of_remove [DecidableEq ν] {s : Stays ν} {q l : List ν}
    (hl : FileSystem.canonicalize { fs with tree := fs.tree.remove s q } p = .ok l) :
    fs.canonicalize p = .ok l := by
  unfold canonicalize at hl ⊢
  split
  · rename_i h
    rw [if_pos h] at hl
    cases hl
  · rename_i h
    rw [if_neg h] at hl
    simp only at hl ⊢
    generalize (if p.absolute = true then p.segs else fs.cwd.map .name ++ p.segs) = segs at hl ⊢
    cases hw : (fs.tree.remove s q).walk false maxLinks [] segs with
    | error e => rw [hw] at hl; cases hl
    | ok r =>
        rw [hw] at hl
        rw [Tree.walk_of_remove hw]
        exact hl

theorem start_of_tree {t : Tree ν} : FileSystem.start { fs with tree := t } p = fs.start p := rfl

theorem resolve_of_remove [DecidableEq ν] {s : Stays ν} {q l : List ν}
    (hl : FileSystem.resolve { fs with tree := fs.tree.remove s q } false p = .ok l) :
    fs.resolve false p = .ok l := by
  unfold resolve at hl ⊢
  split
  · rename_i he
    rw [if_pos he] at hl
    cases hl
  · rename_i he
    rw [if_neg he, start_of_tree] at hl
    cases hw : (fs.tree.remove s q).walk false maxLinks (fs.start p) p.segs with
    | error e => rw [hw] at hl; cases hl
    | ok r =>
        rw [hw] at hl
        rw [Tree.walk_of_remove hw]
        exact hl

theorem lresolve_of_remove [DecidableEq ν] {s : Stays ν} {q l : List ν}
    (hl : FileSystem.lresolve { fs with tree := fs.tree.remove s q } p = .ok l) :
    fs.lresolve p = .ok l := by
  unfold lresolve at hl ⊢
  split
  · rename_i n hlast
    rw [hlast] at hl
    simp only [start_of_tree] at hl
    cases hloc : (fs.tree.remove s q).locate maxLinks (fs.start p) p.segs.dropLast n with
    | error e => rw [hloc] at hl; cases hl
    | ok r =>
        rw [hloc] at hl
        obtain ⟨hw, hx⟩ := Tree.locate_ok.mp hloc
        rw [Tree.locate_ok.mpr ⟨Tree.walk_of_remove hw, Tree.lookup_of_remove hx⟩]
        exact hl
  · rename_i hlast
    split at hl
    · rename_i n hn
      exact absurd hn (hlast n)
    · exact resolve_of_remove hl

end FileSystem

end Fs
