import Unitpm.ProcTree

/-! # Signals to a process tree

`signal_tree` and `kill_tree` of `daemon::manager::stop` send a signal to all processes below a
process, and then to its group.  Which processes these are, and in which order, is what
`walk_descendants` returns: it takes a map of `/proc` of its own (`scan_proc_tree`) and walks it
with a stack.

A process is listed when its parent is taken from the stack, so a parent is always listed before its
children; the order that the source wants, leaves first, is there only where no child of the root
has children (`walkDescendants_leavesFirst_iff`).  No walk keeps the processes it has seen: all of
them end if and only if the process they begin at is not below itself (`walks_terminate_iff`). -/

namespace Unitpm.Manager.Stop

open Relation Worklist Metrics

/-! ### The scan -/

/-- The loop of `scan_proc_tree`, which skips what it cannot read. -/
def scanEntries (children : TreeSnapshot) : List (Option ProcEntry) → TreeSnapshot
  | [] => children
  | none :: es => scanEntries children es
  | some e :: es =>
      if e.isDir then
        match e.pid? with
        | none => scanEntries children es
        | some pid =>
            match e.ppid? with
            | none => scanEntries children es
            | some ppid => scanEntries (children.push ppid pid) es
      else scanEntries children es

/-- `scan_proc_tree`: `none` if `/proc` cannot be read. -/
def scanProcTree (dir : ProcDir) : Option TreeSnapshot := dir.map (scanEntries fun _ => [])

/-- The map was made by a scan. -/
def Scanned (tree : TreeSnapshot) : Prop := ∃ dir, scanProcTree dir = some tree

/-- The directories of a scan are counted one after another. -/
theorem scanEntries_eq (es : List (Option ProcEntry)) (children : TreeSnapshot) :
    scanEntries children es = fun p => children p ++
      treeOf (((found es).filter ProcEntry.isDir).filterMap ProcEntry.link?) p := by
  induction es generalizing children with
  | nil => simp [scanEntries, found, treeOf]
  | cons e es ih =>
      cases e with
      | none => exact ih children
      | some e =>
          rw [show found (some e :: es) = e :: found es from rfl]
          cases hdir : e.isDir with
          | false => simp [scanEntries, hdir, ih]
          | true =>
              rw [List.filter_cons_of_pos hdir]
              cases hpid : e.pid? with
              | none =>
                  have hlink : e.link? = none := by simp [ProcEntry.link?, hpid]
                  simp only [scanEntries, hdir, hpid, if_true]
                  rw [ih, List.filterMap_cons_none hlink]
              | some pid =>
                  cases hppid : e.ppid? with
                  | none =>
                      have hlink : e.link? = none := by simp [ProcEntry.link?, hpid, hppid]
                      simp only [scanEntries, hdir, hpid, hppid, if_true]
                      rw [ih, List.filterMap_cons_none hlink]
                  | some ppid =>
                      have hlink : e.link? = some (ppid, pid) := by
                        simp [ProcEntry.link?, hpid, hppid]
                      simp only [scanEntries, hdir, hpid, hppid, if_true]
                      rw [ih, List.filterMap_cons_some hlink, push_append_treeOf]

theorem Scanned.taken {tree : TreeSnapshot} (h : Scanned tree) : Taken tree := by
  obtain ⟨dir, hdir⟩ := h
  obtain ⟨es, -, rfl⟩ := Option.map_eq_some_iff.mp hdir
  refine ⟨some (((found es).filter ProcEntry.isDir).map some), ?_⟩
  rw [takeSnapshot, takeEntries_map_some, scanEntries_eq]

theorem scanned_treeOf {links : List (ℤ × ℤ)} (h : ∀ l ∈ links, Fits 31 l.1 ∧ Fits 31 l.2) :
    Scanned (treeOf links) := by
  obtain ⟨es, hdir, rfl⟩ := exists_entries h
  have hfound : found (es.map some) = es := by simp [found]
  refine ⟨some (es.map some), ?_⟩
  rw [scanProcTree, Option.map_some, scanEntries_eq, hfound, List.filter_eq_self.mpr hdir]
  simp

/-! ### The walk and the signals -/

/-- `walk_descendants`, in at most `fuel` rounds, on what `scan_proc_tree` returns. -/
def walkDescendants (fuel : ℕ) (scan : Option TreeSnapshot) (root : ℤ) : Option (List ℤ) :=
  match scan with
  | none => some []
  | some children => drain stack (listChildren children) fuel 0 [root] []

/-- `KillError`. -/
inductive KillError where
  | processGroup (errno : ℤ)
deriving DecidableEq

/-- `ESRCH`: no such process. -/
def esrch : ℤ := 3

/-- `SIGKILL`. -/
def sigkill : ℤ := 9

/-- The calls of `kill` that `signal_tree` makes, and its result; `groupErrno` is how the call for
the group fails, and the other calls may fail. -/
def signalTree (fuel : ℕ) (scan : Option TreeSnapshot) (groupErrno : Option ℤ) (pid sig : ℤ) :
    Option (List (ℤ × ℤ) × Except KillError Unit) :=
  (walkDescendants fuel scan pid).map fun descendants =>
    (descendants.map (fun d => (d, sig)) ++ [(-pid, sig)],
      match groupErrno with
      | none => .ok ()
      | some errno => if errno = esrch then .ok () else .error (.processGroup errno))

/-- The calls of `kill` that `kill_tree` makes. -/
def killTree (fuel : ℕ) (scan : Option TreeSnapshot) (pid : ℤ) : Option (List (ℤ × ℤ)) :=
  (walkDescendants fuel scan pid).map fun descendants =>
    descendants.map (fun d => (d, sigkill)) ++ [(-pid, sigkill)]

theorem killTree_eq (fuel : ℕ) (scan : Option TreeSnapshot) (groupErrno : Option ℤ) (pid : ℤ) :
    killTree fuel scan pid = (signalTree fuel scan groupErrno pid sigkill).map Prod.fst := by
  unfold killTree signalTree
  cases walkDescendants fuel scan pid <;> rfl

variable {tree : TreeSnapshot} {root : ℤ}

theorem walkDescendants_terminates (htaken : Taken tree) (hone : OneParent tree)
    (hroot : ¬ Above tree root root) :
    ∃ fuel out, walkDescendants fuel (some tree) root = some out := by
  obtain ⟨f, hf, hfu, -, -⟩ := exists_subtree htaken.finite hone hroot
  exact drain_terminates stack_perm (listChildren_children tree) hfu hf 0 []

/-- The walk lists each process below the root once, and begins with the children of the root. -/
theorem walkDescendants_eq_some (htaken : Taken tree) (hone : OneParent tree)
    (hroot : ¬ Above tree root root) {fuel : ℕ} {out : List ℤ}
    (h : walkDescendants fuel (some tree) root = some out) :
    out.Nodup ∧ (∀ x, x ∈ out ↔ Above tree root x) ∧ tree root <+: out := by
  obtain ⟨f, hf, hfu, hnodup, hmem⟩ := exists_subtree htaken.finite hone hroot
  have hperm : (root :: out).Perm f.preorder := by
    have hout := drain_perm stack_perm hfu (fun _ _ _ => rfl) hf h
    have hall := Forest.roots_append_children_perm hfu
    rw [hf] at hall
    exact (hout.cons root).trans hall
  have hnd : (root :: out).Nodup := hperm.nodup_iff.mpr hnodup
  refine ⟨(List.nodup_cons.mp hnd).2, ?_, ?_⟩
  · intro x
    have hx : x ∈ root :: out ↔ InSubtree tree root x := by rw [hperm.mem_iff, hmem]
    rw [List.mem_cons] at hx
    constructor
    · intro hin
      rcases reflTransGen_iff_eq_or_transGen.mp (hx.mp (.inr hin)) with rfl | hbelow
      · exact absurd hin (List.nodup_cons.mp hnd).1
      · exact hbelow
    · intro hbelow
      rcases hx.mpr hbelow.to_reflTransGen with rfl | hin
      · exact absurd hbelow hroot
      · exact hin
  · exact prefix_drain_cons h

/-- If the leaves come first, then the children of the root are leaves: they are listed before all
other processes. -/
theorem leaves_of_leavesFirst (htaken : Taken tree) (hone : OneParent tree)
    (hroot : ¬ Above tree root root) {fuel : ℕ} {out : List ℤ}
    (h : walkDescendants fuel (some tree) root = some out)
    (horder : out.Pairwise fun a b => ¬ Above tree a b) : ∀ c ∈ tree root, tree c = [] := by
  intro c hc
  obtain ⟨-, hmem, later, rfl⟩ := walkDescendants_eq_some htaken hone hroot h
  by_contra hne
  obtain ⟨g, hg⟩ := List.exists_mem_of_ne_nil _ hne
  -- a child of `c` is no child of the root, so it comes later
  have hbelow : Above tree root g := TransGen.tail (.single hc) hg
  rcases List.mem_append.mp ((hmem g).mpr hbelow) with hfirst | hlater
  · obtain rfl := hone.unique root c g hfirst hg
    exact hroot (.single hc)
  · exact (List.pairwise_append.mp horder).2.2 c hc g hlater (.single hg)

/-- The processes below the root are signalled leaves first if and only if no child of the root has
children. -/
theorem walkDescendants_leavesFirst_iff (hscan : Scanned tree) (hone : OneParent tree)
    (hroot : ¬ Above tree root root) (groupErrno : Option ℤ) (sig : ℤ) :
    (∃ fuel out, walkDescendants fuel (some tree) root = some out ∧ out.Nodup ∧
      (∀ x, x ∈ out ↔ Above tree root x) ∧ out.Pairwise (fun a b => ¬ Above tree a b) ∧
      ∃ r, signalTree fuel (some tree) groupErrno root sig =
        some (out.map (fun d => (d, sig)) ++ [(-root, sig)], r)) ↔
    ∀ c ∈ tree root, tree c = [] := by
  have htaken := hscan.taken
  constructor
  · rintro ⟨fuel, out, hout, -, -, horder, -⟩
    exact leaves_of_leavesFirst htaken hone hroot hout horder
  · intro hleaf
    obtain ⟨fuel, out, hout⟩ := walkDescendants_terminates htaken hone hroot
    obtain ⟨hnodup, hmem, -⟩ := walkDescendants_eq_some htaken hone hroot hout
    refine ⟨fuel, out, hout, hnodup, hmem, ?_, ?_⟩
    · rw [List.pairwise_iff_forall_sublist]
      intro a b hab habove
      have ha : Above tree root a := (hmem a).mp (hab.subset List.mem_cons_self)
      -- what is below the root is a child of it, and has no children
      obtain ⟨c, hc, hca⟩ := TransGen.head'_iff.mp ha
      rcases hca.cases_head with rfl | ⟨d, hd, -⟩
      · obtain ⟨d, hd, -⟩ := TransGen.head'_iff.mp habove
        rw [IsParent, hleaf c hc] at hd
        exact List.not_mem_nil hd
      · rw [IsParent, hleaf c hc] at hd
        exact List.not_mem_nil hd
    · exact ⟨_, by unfold signalTree; rw [hout]; rfl⟩

/-- The root has a child and a grandchild: the child, which holds the grandchild, is signalled
first. -/
theorem chain_not_leavesFirst :
    ¬ ∀ (tree : TreeSnapshot) (root : ℤ), Scanned tree → OneParent tree →
      (∀ x, ¬ Above tree x x) →
      ∃ fuel out, walkDescendants fuel (some tree) root = some out ∧
        out.Pairwise fun a b => ¬ Above tree a b := by
  intro hall
  have hone : OneParent (treeOf chainLinks) := oneParent_treeOf (by decide)
  have hacyclic : ∀ x, ¬ Above (treeOf chainLinks) x x := not_above_self (by decide)
  have hscan : Scanned (treeOf chainLinks) := scanned_treeOf (by unfold Fits; decide)
  obtain ⟨fuel, out, hout, horder⟩ := hall (treeOf chainLinks) 1 hscan hone hacyclic
  have hleaf := leaves_of_leavesFirst hscan.taken hone (hacyclic 1) hout horder
  exact absurd (hleaf 2 (by decide)) (by decide)

/-- Two children of a process. -/
def pairLinks : List (ℤ × ℤ) := [(1, 2), (1, 3)]

/-- The children of a process without grandchildren are signalled leaves first. -/
theorem pair_leavesFirst :
    Scanned (treeOf pairLinks) ∧ OneParent (treeOf pairLinks) ∧
      ∃ fuel out, walkDescendants fuel (some (treeOf pairLinks)) 1 = some out ∧ out.Nodup ∧
        (∀ x, x ∈ out ↔ Above (treeOf pairLinks) 1 x) ∧
        out.Pairwise (fun a b => ¬ Above (treeOf pairLinks) a b) ∧
        ∃ r, signalTree fuel (some (treeOf pairLinks)) none 1 15 =
          some (out.map (fun d => (d, 15)) ++ [(-1, 15)], r) := by
  have hscan : Scanned (treeOf pairLinks) := scanned_treeOf (by unfold Fits; decide)
  have hone : OneParent (treeOf pairLinks) := oneParent_treeOf (by decide)
  refine ⟨hscan, hone, ?_⟩
  exact (walkDescendants_leavesFirst_iff hscan hone (not_above_self (by decide) 1) none 15).mpr
    (by decide)

/-! ### The end of the walks -/

theorem not_above_of_walkDescendants (htaken : Taken tree) (hone : OneParent tree) {fuel : ℕ}
    {out : List ℤ} (h : walkDescendants fuel (some tree) root = some out) :
    ¬ Above tree root root := by
  apply (hone.acc_iff_acyclic htaken.finite).mp
  have hstep : ∀ round cur, (listChildren tree round cur).2 = tree cur := fun _ _ => rfl
  exact acc_of_drain stack_perm hstep h root List.mem_cons_self

/-- All walks end, whatever the files of the processes hold, if and only if the process they begin
at is not below itself. -/
theorem walks_terminate_iff (hbuilt : Taken tree ∨ Scanned tree) (hone : OneParent tree)
    (root : ℤ) :
    ((∃ fuel, (walkDescendants fuel (some tree) root).isSome) ∧
      (∃ fuel, (findDescendants fuel (.ok tree) root).isSome) ∧
      ∀ files, ∃ fuel, (getProcessTree fuel (.ok tree) files root).isSome) ↔
    ¬ Above tree root root := by
  have htaken : Taken tree := hbuilt.elim id Scanned.taken
  constructor
  · rintro ⟨⟨fuel, h⟩, -, -⟩
    obtain ⟨out, hout⟩ := Option.isSome_iff_exists.mp h
    exact not_above_of_walkDescendants htaken hone hout
  · intro hroot
    refine ⟨?_, ?_, fun files => ?_⟩
    · obtain ⟨fuel, out, h⟩ := walkDescendants_terminates htaken hone hroot
      exact ⟨fuel, Option.isSome_iff_exists.mpr ⟨_, h⟩⟩
    · obtain ⟨fuel, out, h, -⟩ := findDescendants_subtree htaken.finite hone hroot
      exact ⟨fuel, Option.isSome_iff_exists.mpr ⟨_, h⟩⟩
    · obtain ⟨fuel, out, h⟩ := getProcessTree_terminates htaken hone hroot files
      exact ⟨fuel, Option.isSome_iff_exists.mpr ⟨_, h⟩⟩

/-- Two processes that are parents of each other, as two reads of reused numbers can have it. -/
def cycleLinks : List (ℤ × ℤ) := [(20, 21), (21, 20)]

/-- The walk from a process on a cycle does not end. -/
theorem cycle_not_terminates :
    ¬ ∀ (tree : TreeSnapshot) (root : ℤ), Taken tree ∨ Scanned tree → OneParent tree →
      ∃ fuel, (walkDescendants fuel (some tree) root).isSome := by
  intro hall
  have hscan : Scanned (treeOf cycleLinks) := scanned_treeOf (by unfold Fits; decide)
  have hone : OneParent (treeOf cycleLinks) := oneParent_treeOf (by decide)
  obtain ⟨fuel, h⟩ := hall (treeOf cycleLinks) 20 (.inr hscan) hone
  obtain ⟨out, hout⟩ := Option.isSome_iff_exists.mp h
  have hdown : IsParent (treeOf cycleLinks) 20 21 := mem_treeOf.mpr (by decide)
  have hup : IsParent (treeOf cycleLinks) 21 20 := mem_treeOf.mpr (by decide)
  exact not_above_of_walkDescendants hscan.taken hone hout (.tail (.single hdown) hup)

/-- The walks from a process with two children end. -/
theorem pair_terminates :
    Scanned (treeOf pairLinks) ∧ OneParent (treeOf pairLinks) ∧
      (((∃ fuel, (walkDescendants fuel (some (treeOf pairLinks)) 1).isSome) ∧
        (∃ fuel, (findDescendants fuel (.ok (treeOf pairLinks)) 1).isSome) ∧
        ∀ files, ∃ fuel, (getProcessTree fuel (.ok (treeOf pairLinks)) files 1).isSome) ↔
      ¬ Above (treeOf pairLinks) 1 1) := by
  have hscan : Scanned (treeOf pairLinks) := scanned_treeOf (by unfold Fits; decide)
  have hone : OneParent (treeOf pairLinks) := oneParent_treeOf (by decide)
  exact ⟨hscan, hone, walks_terminate_iff (.inr hscan) hone 1⟩

end Unitpm.Manager.Stop
