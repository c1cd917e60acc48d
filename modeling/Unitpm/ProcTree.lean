import Unitpm.Lib.Forest
import Unitpm.ProcStat

/-! # The process tree

`metrics::proctree` scans `/proc` into a map from a parent to its children (`take_snapshot`), keeps
it for a second (`snapshot`), and walks it from a process: `find_descendants` for the processes that
are measured together, `get_process_tree` for the list that is shown.

A process is scanned with the stat line that is read when the scan comes to it, so a map may put
together parents from different times; all that is left of the processes is that each is scanned
once (`oneParent_of_takeSnapshot`).  Both walks are a queue.  The one of `get_process_tree` is
documented as depth first, which a queue is only in a tree where the last of the children of a
process alone has children (`getProcessTree_depthFirst_iff`). -/

namespace Unitpm.Metrics

open Relation Worklist

/-! ### The snapshot -/

/-- `TreeSnapshot`: the children of a process, in the order they are found. -/
abbrev TreeSnapshot := ℤ → List ℤ

/-- `tree.entry(ppid).or_default().push(pid)`. -/
def TreeSnapshot.push (tree : TreeSnapshot) (ppid pid : ℤ) : TreeSnapshot := fun p =>
  if p = ppid then tree p ++ [pid] else tree p

/-- What a scan finds of an entry of `/proc`: its type, its name if that is a string, and its stat
line if it can be read. -/
structure ProcEntry where
  isDir : Bool
  name : Option String
  stat : Option StatLine

/-- The name of the entry as a number. -/
def ProcEntry.pid? (e : ProcEntry) : Option ℤ :=
  e.name.bind fun name => Rust.Str.parseSigned (2 ^ 31) (2 ^ 31 - 1) name.toList

/-- `get_ppid` of the entry. -/
def ProcEntry.ppid? (e : ProcEntry) : Option ℤ :=
  (getPpid (e.stat.map StatLine.bytes)).toOption

/-- `read_dir("/proc")`: it may fail, and so may each of its entries. -/
abbrev ProcDir := Option (List (Option ProcEntry))

/-- The loop of `take_snapshot`. -/
def takeEntries (tree : TreeSnapshot) : List (Option ProcEntry) → Except MetricsError TreeSnapshot
  | [] => .ok tree
  | none :: _ => .error .io
  | some e :: es =>
      match e.pid? with
      | none => takeEntries tree es
      | some pid =>
          match e.ppid? with
          | none => takeEntries tree es
          | some ppid => takeEntries (tree.push ppid pid) es

/-- `take_snapshot`. -/
def takeSnapshot : ProcDir → Except MetricsError TreeSnapshot
  | none => .error .io
  | some es => takeEntries (fun _ => []) es

/-- The rest of `snapshot` when the cache is not used: a new map, which is put into the cache. -/
def refresh (cache : Option (TreeSnapshot × ℕ)) (now : ℕ) (dir : ProcDir) :
    Except MetricsError TreeSnapshot × Option (TreeSnapshot × ℕ) :=
  match takeSnapshot dir with
  | .error e => (.error e, cache)
  | .ok tree => (.ok tree, some (tree, now))

/-- `snapshot`, at `now` milliseconds: the map and the cache, which holds a map and the time it was
taken. -/
def snapshot (cache : Option (TreeSnapshot × ℕ)) (now : ℕ) (forceRefresh : Bool) (dir : ProcDir) :
    Except MetricsError TreeSnapshot × Option (TreeSnapshot × ℕ) :=
  if forceRefresh then refresh cache now dir
  else
    match cache with
    | none => refresh cache now dir
    | some (tree, cachedAt) =>
        if now - cachedAt < 1000 then (.ok tree, cache) else refresh cache now dir

/-- The map was taken by a scan. -/
def Taken (tree : TreeSnapshot) : Prop := ∃ dir, takeSnapshot dir = .ok tree

theorem refresh_taken {cache : Option (TreeSnapshot × ℕ)} (hcache : ∀ c ∈ cache, Taken c.1)
    (now : ℕ) (dir : ProcDir) :
    (∀ tree, (refresh cache now dir).1 = .ok tree → Taken tree) ∧
      ∀ c ∈ (refresh cache now dir).2, Taken c.1 := by
  unfold refresh
  cases h : takeSnapshot dir with
  | error e => exact ⟨by simp, hcache⟩
  | ok tree => exact ⟨by rintro t ⟨⟩; exact ⟨dir, h⟩, by rintro c ⟨⟩; exact ⟨dir, h⟩⟩

/-- The cache gives out what scans have taken. -/
theorem snapshot_taken {cache : Option (TreeSnapshot × ℕ)}
    (hcache : ∀ c ∈ cache, Taken c.1) (now : ℕ) (forceRefresh : Bool) (dir : ProcDir) :
    (∀ tree, (snapshot cache now forceRefresh dir).1 = .ok tree → Taken tree) ∧
      ∀ c ∈ (snapshot cache now forceRefresh dir).2, Taken c.1 := by
  have hrefresh := refresh_taken hcache now dir
  unfold snapshot
  split_ifs
  · exact hrefresh
  · split
    · exact hrefresh
    · rename_i tree cachedAt
      split_ifs
      · refine ⟨?_, hcache⟩
        rintro t ⟨⟩
        exact hcache (tree, cachedAt) rfl
      · exact hrefresh

/-- The parent and the process of the entries that a scan counts. -/
def ProcEntry.link? (e : ProcEntry) : Option (ℤ × ℤ) :=
  e.pid?.bind fun pid => e.ppid?.map fun ppid => (ppid, pid)

/-- The entries that can be read. -/
def found (es : List (Option ProcEntry)) : List ProcEntry := es.filterMap id

/-- The map of a list of parents and processes. -/
def treeOf (links : List (ℤ × ℤ)) : TreeSnapshot := fun p =>
  (links.filter fun l => l.1 = p).map Prod.snd

theorem mem_treeOf {links : List (ℤ × ℤ)} {p c : ℤ} : c ∈ treeOf links p ↔ (p, c) ∈ links := by
  simp only [treeOf, List.mem_map, List.mem_filter, decide_eq_true_eq]
  constructor
  · rintro ⟨l, ⟨hl, rfl⟩, rfl⟩
    exact hl
  · exact fun h => ⟨(p, c), ⟨h, rfl⟩, rfl⟩

theorem oneParent_treeOf {links : List (ℤ × ℤ)} (h : (links.map Prod.snd).Nodup) :
    OneParent (treeOf links) where
  once := fun p => h.sublist (List.filter_sublist.map Prod.snd)
  unique := fun a b c ha hb => by
    have hinj := List.inj_on_of_nodup_map h (mem_treeOf.mp ha) (mem_treeOf.mp hb) rfl
    exact congrArg Prod.fst hinj

theorem finite_treeOf (links : List (ℤ × ℤ)) : {c | ∃ p, IsParent (treeOf links) p c}.Finite := by
  apply (List.finite_toSet (links.map Prod.snd)).subset
  rintro c ⟨p, hp⟩
  exact List.mem_map.mpr ⟨(p, c), mem_treeOf.mp hp, rfl⟩

theorem push_append_treeOf (tree : TreeSnapshot) (ppid pid : ℤ) (links : List (ℤ × ℤ)) :
    (fun p => tree.push ppid pid p ++ treeOf links p) =
      fun p => tree p ++ treeOf ((ppid, pid) :: links) p := by
  funext p
  by_cases h : p = ppid
  · subst h
    simp [TreeSnapshot.push, treeOf]
  · have h' : ppid ≠ p := fun e => h e.symm
    simp [TreeSnapshot.push, treeOf, h, h']

/-- The entries of a scan are counted one after another. -/
theorem takeEntries_map_some (es : List ProcEntry) (tree : TreeSnapshot) :
    takeEntries tree (es.map some) =
      .ok fun p => tree p ++ treeOf (es.filterMap ProcEntry.link?) p := by
  induction es generalizing tree with
  | nil => simp [takeEntries, treeOf]
  | cons e es ih =>
      cases hpid : e.pid? with
      | none =>
          have hlink : e.link? = none := by simp [ProcEntry.link?, hpid]
          simp only [List.map_cons, takeEntries, hpid]
          rw [ih, List.filterMap_cons_none hlink]
      | some pid =>
          cases hppid : e.ppid? with
          | none =>
              have hlink : e.link? = none := by simp [ProcEntry.link?, hpid, hppid]
              simp only [List.map_cons, takeEntries, hpid, hppid]
              rw [ih, List.filterMap_cons_none hlink]
          | some ppid =>
              have hlink : e.link? = some (ppid, pid) := by simp [ProcEntry.link?, hpid, hppid]
              simp only [List.map_cons, takeEntries, hpid, hppid]
              rw [ih, List.filterMap_cons_some hlink, push_append_treeOf]

theorem eq_map_some_of_takeEntries {es : List (Option ProcEntry)} {tree t : TreeSnapshot}
    (h : takeEntries tree es = .ok t) : es = (found es).map some := by
  induction es generalizing tree with
  | nil => rfl
  | cons e es ih =>
      cases e with
      | none => cases h
      | some e =>
          have hrest : ∃ tree', takeEntries tree' es = .ok t := by
            simp only [takeEntries] at h
            split at h
            · exact ⟨tree, h⟩
            · split at h
              · exact ⟨tree, h⟩
              · exact ⟨_, h⟩
          obtain ⟨tree', h'⟩ := hrest
          exact congrArg (some e :: ·) (ih h')

theorem takeSnapshot_eq_ok {dir : ProcDir} {tree : TreeSnapshot} (h : takeSnapshot dir = .ok tree) :
    ∃ es, dir = some es ∧ tree = treeOf ((found es).filterMap ProcEntry.link?) := by
  cases dir with
  | none => cases h
  | some es =>
      refine ⟨es, rfl, ?_⟩
      have hall := takeEntries_map_some (found es) fun _ => []
      rw [← eq_map_some_of_takeEntries h] at hall
      exact Except.ok.inj (h.symm.trans hall)

theorem Taken.finite {tree : TreeSnapshot} (h : Taken tree) :
    {c | ∃ p, IsParent tree p c}.Finite := by
  obtain ⟨dir, hdir⟩ := h
  obtain ⟨es, -, rfl⟩ := takeSnapshot_eq_ok hdir
  exact finite_treeOf _

/-- The processes of the map are among the ones the scan lists. -/
theorem links_sublist (es : List ProcEntry) :
    ((es.filterMap ProcEntry.link?).map Prod.snd).Sublist (es.filterMap ProcEntry.pid?) := by
  induction es with
  | nil => exact .refl _
  | cons e es ih =>
      cases hpid : e.pid? with
      | none =>
          have hlink : e.link? = none := by simp [ProcEntry.link?, hpid]
          rw [List.filterMap_cons_none hlink, List.filterMap_cons_none hpid]
          exact ih
      | some pid =>
          rw [List.filterMap_cons_some hpid]
          cases hppid : e.ppid? with
          | none =>
              have hlink : e.link? = none := by simp [ProcEntry.link?, hpid, hppid]
              rw [List.filterMap_cons_none hlink]
              exact ih.cons pid
          | some ppid =>
              have hlink : e.link? = some (ppid, pid) := by simp [ProcEntry.link?, hpid, hppid]
              rw [List.filterMap_cons_some hlink]
              exact ih.cons_cons pid

theorem oneParent_of_takeSnapshot {es : List (Option ProcEntry)} {tree : TreeSnapshot}
    (hone : ((found es).filterMap ProcEntry.pid?).Nodup)
    (h : takeSnapshot (some es) = .ok tree) : OneParent tree := by
  obtain ⟨es', he, rfl⟩ := takeSnapshot_eq_ok h
  cases he
  exact oneParent_treeOf (hone.sublist (links_sublist _))

/-! ### The walks -/

/-- `p` is an ancestor of `c`. -/
abbrev Above (tree : TreeSnapshot) (p c : ℤ) : Prop := TransGen (IsParent tree) p c

/-- `c` belongs to the subtree of `p`. -/
abbrev InSubtree (tree : TreeSnapshot) (p c : ℤ) : Prop := ReflTransGen (IsParent tree) p c

/-- One round of a walk that lists the children of a process when it comes to it. -/
def listChildren (tree : TreeSnapshot) (_ : ℕ) (cur : ℤ) : List ℤ × List ℤ := (tree cur, tree cur)

theorem listChildren_children (tree : TreeSnapshot) (round : ℕ) (cur : ℤ) :
    (listChildren tree round cur).2 = tree cur ∨ (listChildren tree round cur).2 = [] := .inl rfl

/-- `find_descendants`, in at most `fuel` rounds, on what `snapshot` returns. -/
def findDescendants (fuel : ℕ) (snap : Except MetricsError TreeSnapshot) (root : ℤ) :
    Option (Except MetricsError (List ℤ)) :=
  match snap with
  | .error e => some (.error e)
  | .ok tree => (drain queue (listChildren tree) fuel 0 [root] [root]).map .ok

/-- `ChildStat`. -/
structure ChildStat where
  pid : ℤ
  comm : String
  depth : ℤ
  memoryBytes : ℤ
deriving DecidableEq

/-- What is read of the files of a process: its stat line and its name, if they can be read. -/
structure ProcFiles where
  stat : Option StatLine
  comm : Option String

/-- `read_comm`. -/
def readComm : Option String → String
  | some s => String.ofList (Rust.Str.trim s.toList)
  | none => ""

/-- `PAGE_SIZE`. -/
def pageSize : ℤ := 4096

/-- One round of `get_process_tree`: a process whose stat line cannot be read is skipped, with all
that is below it.  The line of a process makes no reader panic (`StatLine.readStatRss_bytes`). -/
def listRound (tree : TreeSnapshot) (files : ℕ → ℤ → ProcFiles) (round : ℕ) (w : ℤ × ℤ) :
    List ChildStat × List (ℤ × ℤ) :=
  match readStatRss ((files round w.1).stat.map StatLine.bytes) with
  | .error _ => ([], [])
  | .ok rss =>
      ([{ pid := w.1
          comm := readComm (files round w.1).comm
          depth := w.2
          memoryBytes := (rss * pageSize).bmod (2 ^ 64) }],
        (tree w.1).map fun child => (child, w.2 + 1))

/-- `get_process_tree`, in at most `fuel` rounds, on what `snapshot` returns; the files may change
from round to round. -/
def getProcessTree (fuel : ℕ) (snap : Except MetricsError TreeSnapshot)
    (files : ℕ → ℤ → ProcFiles) (root : ℤ) : Option (Except MetricsError (List ChildStat)) :=
  match snap with
  | .error e => some (.error e)
  | .ok tree => (drain queue (listRound tree files) fuel 0 [(root, 0)] []).map .ok

variable {tree : TreeSnapshot} {root : ℤ}

/-- The part of a map below a process that is not below itself is a forest, with the process as its
root, and each process of the subtree is in it once. -/
theorem exists_subtree (hfin : {c | ∃ p, IsParent tree p c}.Finite) (hone : OneParent tree)
    (hroot : ¬ Above tree root root) :
    ∃ f : Forest ℤ, f.roots = [root] ∧ f.Unfolds tree ∧ f.preorder.Nodup ∧
      ∀ x, x ∈ f.preorder ↔ InSubtree tree root x := by
  have hacc : ∀ w ∈ [root], Acc (flip (IsParent tree)) w := by
    intro w hw
    obtain rfl := List.mem_singleton.mp hw
    exact hone.acc_of_acyclic hfin hroot
  obtain ⟨f, hf, hfu⟩ := exists_unfolds_of_acc hacc
  refine ⟨f, hf, hfu, ?_, ?_⟩
  · apply Forest.nodup_preorder hone hfu
    · rw [hf]
      exact List.nodup_singleton root
    · rw [hf]
      simpa using hroot
  · intro x
    rw [Forest.mem_preorder_iff hfu, hf]
    simp

theorem findDescendants_subtree (hfin : {c | ∃ p, IsParent tree p c}.Finite)
    (hone : OneParent tree) (hroot : ¬ Above tree root root) :
    ∃ fuel out, findDescendants fuel (.ok tree) root = some (.ok out) ∧ out.Nodup ∧
      ∀ x, x ∈ out ↔ InSubtree tree root x := by
  obtain ⟨f, hf, hfu, hnodup, hmem⟩ := exists_subtree hfin hone hroot
  obtain ⟨fuel, out, hout⟩ := drain_terminates queue_perm (listChildren_children tree)
    hfu hf 0 [root]
  have hperm : out.Perm f.preorder := by
    have h := drain_perm queue_perm hfu (fun _ _ _ => rfl) hf hout
    rw [← hf] at h
    exact h.trans (Forest.roots_append_children_perm hfu)
  refine ⟨fuel, out, by rw [findDescendants, hout]; rfl, hperm.nodup_iff.mpr hnodup, ?_⟩
  intro x
  rw [hperm.mem_iff, hmem]

theorem listRound_of_stat (tree : TreeSnapshot) {files : ℕ → ℤ → ProcFiles} {round : ℕ}
    {w : ℤ × ℤ} (h : (files round w.1).stat ≠ none) :
    ((listRound tree files round w).1.map fun c => (c.pid, c.depth)) = [w] ∧
      (listRound tree files round w).2 = (tree w.1).map fun child => (child, w.2 + 1) := by
  obtain ⟨l, hl⟩ := Option.ne_none_iff_exists'.mp h
  simp [listRound, hl, l.readStatRss_bytes]

theorem listRound_children (files : ℕ → ℤ → ProcFiles) (round : ℕ) (w : ℤ × ℤ) :
    (listRound tree files round w).2 = (tree w.1).map (fun child => (child, w.2 + 1)) ∨
      (listRound tree files round w).2 = [] := by
  unfold listRound
  split
  · exact .inr rfl
  · exact .inl rfl

theorem getProcessTree_terminates (htaken : Taken tree) (hone : OneParent tree)
    (hroot : ¬ Above tree root root) (files : ℕ → ℤ → ProcFiles) :
    ∃ fuel out, getProcessTree fuel (.ok tree) files root = some (.ok out) := by
  obtain ⟨f, hf, hfu, -, -⟩ := exists_subtree htaken.finite hone hroot
  have hroots : (f.depths 0).roots = [(root, 0)] := by
    rw [Forest.roots_depths, hf]
    rfl
  obtain ⟨fuel, out, hout⟩ := drain_terminates queue_perm (listRound_children files)
    (hfu.depths 0) hroots 0 []
  exact ⟨fuel, out, by rw [getProcessTree, hout]; rfl⟩

/-! ### The order of the list -/

/-- `l` lists the processes `ps`, at depth `d`, each followed by what is below it. -/
inductive DepthFirst (tree : TreeSnapshot) : ℤ → List ℤ → List (ℤ × ℤ) → Prop where
  | nil (d : ℤ) : DepthFirst tree d [] []
  | cons {d p : ℤ} {ps : List ℤ} {below rest : List (ℤ × ℤ)} :
      DepthFirst tree (d + 1) (tree p) below → DepthFirst tree d ps rest →
      DepthFirst tree d (p :: ps) ((p, d) :: (below ++ rest))

/-- `x` is `d` steps below the root. -/
inductive AtDistance (tree : TreeSnapshot) (root : ℤ) : ℤ → ℤ → Prop where
  | root : AtDistance tree root root 0
  | child {p c d : ℤ} : AtDistance tree root p d → c ∈ tree p → AtDistance tree root c (d + 1)

/-- The depth-first list of a forest is its preorder. -/
theorem depthFirst_iff {f : Forest ℤ} (hf : f.Unfolds tree) {d : ℤ} {l : List (ℤ × ℤ)} :
    DepthFirst tree d f.roots l ↔ l = (f.depths d).preorder := by
  induction f generalizing d l with
  | nil =>
      constructor
      · rintro ⟨⟩
        rfl
      · rintro rfl
        exact .nil d
  | node a kids rest ihk ihr =>
      obtain ⟨hroots, hkids, hrest⟩ := hf
      constructor
      · rintro (_ | ⟨hbelow, hafter⟩)
        rw [← hroots, ihk hkids] at hbelow
        rw [ihr hrest] at hafter
        rw [hbelow, hafter]
        rfl
      · rintro rfl
        refine .cons ?_ ((ihr hrest).mpr rfl)
        rw [← hroots]
        exact (ihk hkids).mpr rfl

theorem atDistance_of_mem {f : Forest ℤ} (hf : f.Unfolds tree) (hroots : f.roots = [root])
    {w : ℤ × ℤ} (hw : w ∈ (f.depths 0).preorder) : AtDistance tree root w.1 w.2 := by
  obtain ⟨r, hr, hrw⟩ := (Forest.mem_preorder_iff (hf.depths 0)).mp hw
  rw [Forest.roots_depths, hroots, List.map_singleton, List.mem_singleton] at hr
  subst hr
  clear hw
  induction hrw with
  | refl => exact .root
  | tail _ hstep ih =>
      obtain ⟨c, hc, rfl⟩ := List.mem_map.mp hstep
      exact .child ih hc

/-- A run that can read all processes lists the nodes of the forest with their depths, and lists
them in preorder only if the forest is slim. -/
theorem getProcessTree_eq_ok {f : Forest ℤ} (hf : f.Unfolds tree) (hroots : f.roots = [root])
    (hnodup : f.preorder.Nodup) {files : ℕ → ℤ → ProcFiles}
    (hread : ∀ round, ∀ x ∈ f.preorder, (files round x).stat ≠ none) {fuel : ℕ}
    {out : List ChildStat} (h : getProcessTree fuel (.ok tree) files root = some (.ok out)) :
    (out.map fun c => (c.pid, c.depth)).Perm (f.depths 0).preorder ∧
      ((out.map fun c => (c.pid, c.depth)) = (f.depths 0).preorder ↔ f.Slim) := by
  have hdrain : drain queue (listRound tree files) fuel 0 (f.depths 0).roots [] = some out := by
    rw [Forest.roots_depths, hroots]
    obtain ⟨o, ho, e⟩ := Option.map_eq_some_iff.mp h
    cases e
    exact ho
  have hmap := drain_map (fun c : ChildStat => (c.pid, c.depth)) hdrain
  have hstep : ∀ k, ∀ w ∈ (f.depths 0).preorder,
      (((listRound tree files k w).1.map fun c => (c.pid, c.depth)),
        (listRound tree files k w).2) =
      ([id w], (tree w.1).map fun child => (child, w.2 + 1)) := by
    intro k w hw
    have hx : w.1 ∈ f.preorder := by
      rw [← Forest.map_fst_preorder_depths 0 f]
      exact List.mem_map_of_mem hw
    obtain ⟨hlist, hgo⟩ := listRound_of_stat tree (hread k w.1 hx)
    rw [hlist, hgo]
    rfl
  have hnd : (f.depths 0).preorder.Nodup := by
    apply List.Nodup.of_map Prod.fst
    rw [Forest.map_fst_preorder_depths]
    exact hnodup
  have hperm := drain_perm queue_perm (hf.depths 0) hstep rfl hmap
  have hiff := drain_queue_eq_preorder_iff Function.injective_id (hf.depths 0) hstep hnd hmap
  simp only [List.map_nil, List.nil_append, List.map_id, id_eq, List.flatMap_singleton']
    at hperm hiff
  exact ⟨hperm, hiff.trans (Forest.slim_depths 0 f)⟩

/-- The list of `get_process_tree` has each process of the subtree once, with its distance from the
root. -/
theorem getProcessTree_lists {f : Forest ℤ} (hf : f.Unfolds tree) (hroots : f.roots = [root])
    (hnodup : f.preorder.Nodup) {out : List ChildStat}
    (hperm : (out.map fun c => (c.pid, c.depth)).Perm (f.depths 0).preorder) :
    (out.map ChildStat.pid).Nodup ∧ (∀ x, x ∈ out.map ChildStat.pid ↔ InSubtree tree root x) ∧
      ∀ c ∈ out, AtDistance tree root c.pid c.depth := by
  have hpids : (out.map ChildStat.pid).Perm f.preorder := by
    have h := hperm.map Prod.fst
    rwa [List.map_map, Forest.map_fst_preorder_depths] at h
  refine ⟨hpids.nodup_iff.mpr hnodup, ?_, ?_⟩
  · intro x
    rw [hpids.mem_iff, Forest.mem_preorder_iff hf, hroots]
    simp
  · intro c hc
    exact atDistance_of_mem hf hroots (hperm.mem_iff.mp (List.mem_map_of_mem hc))

/-- The list is depth first if and only if in the subtree the last of the children of a process
alone has children. -/
theorem getProcessTree_depthFirst_iff (htaken : Taken tree) (hone : OneParent tree)
    (hroot : ¬ Above tree root root) {files : ℕ → ℤ → ProcFiles}
    (hread : ∀ round x, InSubtree tree root x → (files round x).stat ≠ none) :
    (∃ fuel out, getProcessTree fuel (.ok tree) files root = some (.ok out) ∧
      (out.map ChildStat.pid).Nodup ∧ (∀ x, x ∈ out.map ChildStat.pid ↔ InSubtree tree root x) ∧
      (∀ c ∈ out, AtDistance tree root c.pid c.depth) ∧
      DepthFirst tree 0 [root] (out.map fun c => (c.pid, c.depth))) ↔
    ∀ p, InSubtree tree root p → ∀ c ∈ (tree p).dropLast, tree c = [] := by
  obtain ⟨f, hf, hfu, hnodup, hmem⟩ := exists_subtree htaken.finite hone hroot
  have hread' : ∀ round, ∀ x ∈ f.preorder, (files round x).stat ≠ none :=
    fun round x hx => hread round x ((hmem x).mp hx)
  have hslim : f.Slim ↔ ∀ p, InSubtree tree root p → ∀ c ∈ (tree p).dropLast, tree c = [] := by
    rw [Forest.slim_iff hfu, hf]
    simp [hmem]
  rw [← hslim, ← hf]
  constructor
  · rintro ⟨fuel, out, hout, -, -, -, hdf⟩
    apply (getProcessTree_eq_ok hfu hf hnodup hread' hout).2.mp
    exact (depthFirst_iff hfu).mp hdf
  · intro hs
    obtain ⟨fuel, out, hout⟩ := getProcessTree_terminates htaken hone hroot files
    obtain ⟨hperm, hiff⟩ := getProcessTree_eq_ok hfu hf hnodup hread' hout
    obtain ⟨hnd, hall, hdist⟩ := getProcessTree_lists hfu hf hnodup hperm
    exact ⟨fuel, out, hout, hnd, hall, hdist, (depthFirst_iff hfu).mpr (hiff.mpr hs)⟩

/-! ### Scans -/

/-- The stat line of an idle process. -/
def idleLine (pid : ℕ) (ppid : ℤ) (h : Fits 31 ppid) : StatLine where
  pid := pid
  comm := []
  state := 'S'
  ppid := ppid
  pgrp := 0
  session := 0
  ttyNr := 0
  tpgid := 0
  flags := 0
  minflt := 0
  cminflt := 0
  majflt := 0
  cmajflt := 0
  utime := 0
  stime := 0
  cutime := 0
  cstime := 0
  priority := 0
  nice := 0
  numThreads := 0
  itrealvalue := 0
  starttime := 0
  vsize := 0
  rss := 0
  more := []
  state_alpha := by decide
  ppid_fits := h
  utime_fits := by unfold Fits; omega
  stime_fits := by unfold Fits; omega
  ticks_fits := by unfold Fits; omega
  rss_fits := by unfold Fits; omega

/-- `/proc` can list any processes with any parents. -/
theorem exists_entries {links : List (ℤ × ℤ)} (h : ∀ l ∈ links, Fits 31 l.1 ∧ Fits 31 l.2) :
    ∃ es : List ProcEntry, (∀ e ∈ es, e.isDir = true) ∧ es.filterMap ProcEntry.link? = links := by
  induction links with
  | nil => exact ⟨[], by simp, rfl⟩
  | cons l links ih =>
      obtain ⟨⟨hppid, hpid⟩, hrest⟩ := List.forall_mem_cons.mp h
      obtain ⟨es, hdir, hes⟩ := ih hrest
      let e : ProcEntry :=
        { isDir := true
          name := some (String.ofList (decimal l.2))
          stat := some (idleLine l.2.toNat l.1 hppid) }
      have he : e.pid? = some l.2 := by
        rw [ProcEntry.pid?, Option.bind_some, String.toList_ofList]
        exact parseSigned_decimal hpid
      have hp : e.ppid? = some l.1 := by
        simp [e, ProcEntry.ppid?, StatLine.getPpid_bytes, Except.toOption, idleLine]
      have hlink : e.link? = some l := by simp [ProcEntry.link?, he, hp]
      refine ⟨e :: es, List.forall_mem_cons.mpr ⟨rfl, hdir⟩, ?_⟩
      rw [List.filterMap_cons_some hlink, hes]

theorem taken_treeOf {links : List (ℤ × ℤ)} (h : ∀ l ∈ links, Fits 31 l.1 ∧ Fits 31 l.2) :
    Taken (treeOf links) := by
  obtain ⟨es, -, rfl⟩ := exists_entries h
  exact ⟨some (es.map some), by simp [takeSnapshot, takeEntries_map_some]⟩

theorem not_above_self {links : List (ℤ × ℤ)} (h : ∀ l ∈ links, l.1 < l.2) (x : ℤ) :
    ¬ Above (treeOf links) x x := by
  have hlt : ∀ a b, Above (treeOf links) a b → a < b := by
    intro a b hab
    induction hab with
    | single hstep => exact h _ (mem_treeOf.mp hstep)
    | tail _ hstep ih => exact ih.trans (h _ (mem_treeOf.mp hstep))
  exact fun hx => lt_irrefl x (hlt x x hx)

/-- Two children, of which the first has a child. -/
def wideLinks : List (ℤ × ℤ) := [(1, 2), (1, 3), (2, 4)]

/-- One child below another. -/
def chainLinks : List (ℤ × ℤ) := [(1, 2), (2, 3)]

/-- The files of idle processes. -/
def idleFiles (_ : ℕ) (pid : ℤ) : ProcFiles where
  stat := some (idleLine pid.toNat 0 (by unfold Fits; omega))
  comm := none

/-- The second child comes before the child of the first. -/
theorem wide_not_depthFirst :
    ¬ ∀ tree root (files : ℕ → ℤ → ProcFiles), Taken tree → OneParent tree →
      (∀ x, ¬ Above tree x x) → (∀ round x, (files round x).stat ≠ none) →
      ∃ fuel out, getProcessTree fuel (.ok tree) files root = some (.ok out) ∧
        DepthFirst tree 0 [root] (out.map fun c => (c.pid, c.depth)) := by
  intro hall
  have htaken : Taken (treeOf wideLinks) := taken_treeOf (by unfold Fits; decide)
  have hone : OneParent (treeOf wideLinks) := oneParent_treeOf (by decide)
  obtain ⟨fuel, out, hout, hdf⟩ := hall (treeOf wideLinks) 1 idleFiles htaken hone
    (not_above_self (by decide)) (by simp [idleFiles])
  let f : Forest ℤ := .node 1 (.node 2 (.node 4 .nil .nil) (.node 3 .nil .nil)) .nil
  have hf : f.Unfolds (treeOf wideLinks) := by simp [f, Forest.Unfolds, treeOf, wideLinks]
  have hslim := (getProcessTree_eq_ok (f := f) hf rfl (by decide) (by simp [idleFiles]) hout).2.mp
    ((depthFirst_iff (f := f) hf).mp hdf)
  simp [f, Forest.Slim] at hslim

/-- A chain is listed depth first. -/
theorem chain_depthFirst :
    Taken (treeOf chainLinks) ∧ OneParent (treeOf chainLinks) ∧
      ∃ fuel out, getProcessTree fuel (.ok (treeOf chainLinks)) idleFiles 1 = some (.ok out) ∧
        (out.map ChildStat.pid).Nodup ∧
        (∀ x, x ∈ out.map ChildStat.pid ↔ InSubtree (treeOf chainLinks) 1 x) ∧
        (∀ c ∈ out, AtDistance (treeOf chainLinks) 1 c.pid c.depth) ∧
        DepthFirst (treeOf chainLinks) 0 [1] (out.map fun c => (c.pid, c.depth)) := by
  have htaken : Taken (treeOf chainLinks) := taken_treeOf (by unfold Fits; decide)
  have hone : OneParent (treeOf chainLinks) := oneParent_treeOf (by decide)
  refine ⟨htaken, hone, ?_⟩
  apply (getProcessTree_depthFirst_iff htaken hone (not_above_self (by decide) 1)
    (by simp [idleFiles])).mpr
  intro p _ c hc
  have hnil : (treeOf chainLinks p).dropLast = [] := by
    simp only [treeOf, chainLinks, List.filter_cons]
    split_ifs <;> first | rfl | (simp at *; omega)
  rw [hnil] at hc
  exact absurd hc List.not_mem_nil

end Unitpm.Metrics
