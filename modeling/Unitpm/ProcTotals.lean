import Unitpm.ProcTree
import Mathlib.Algebra.BigOperators.Group.Finset.Basic
import Mathlib.Algebra.Ring.Int.Defs
import Mathlib.Data.Set.Finite.Lattice

/-! # The totals of a process tree

`ProcTreeCollector::collect` adds up the ticks and the resident pages of the processes that
`find_descendants` returns, and compares the ticks with those of the sample before.

Where each process has one parent and the root is not below itself, `find_descendants` returns each
process of the subtree once, so each is read once and counts once in both sums
(`collect_countsOnce`). -/

namespace Unitpm

/-! ### The collector -/

/-- `Metrics`; times are in nanoseconds.  `cpu` are the ticks and the time that `cpu_percent` is
computed from; where it is `none`, `cpu_percent` is zero. -/
structure Metrics where
  timestamp : ℕ
  memoryBytes : ℤ
  cpu : Option (ℤ × ℕ)

namespace Metrics

open Relation Worklist

/-- `ProcTreeCollector`. -/
structure ProcTreeCollector where
  rootPid : ℤ
  lastTotalTicks : Option ℤ
  lastSampleTime : Option ℕ

/-- The arithmetic of `i64`, which wraps around. -/
def wrapI64 (x : ℤ) : ℤ := x.bmod (2 ^ 64)

/-- The loop of `collect`, from its `round`-th process on: the ticks and the pages.  What cannot be
read does not count; the line of a process makes no reader panic. -/
def addStats (files : ℕ → ℤ → Option StatLine) : ℕ → List ℤ → ℤ × ℤ → ℤ × ℤ
  | _, [], total => total
  | round, pid :: pids, total =>
      match readProcStat ((files round pid).map StatLine.bytes) with
      | .error _ => addStats files (round + 1) pids total
      | .ok (ticks, rssPages) =>
          addStats files (round + 1) pids (wrapI64 (total.1 + ticks), wrapI64 (total.2 + rssPages))

/-- The ticks since the sample before, if time has passed and they have not gone back. -/
def cpuDelta (c : ProcTreeCollector) (now : ℕ) (totalTicks : ℤ) : Option (ℤ × ℕ) :=
  match c.lastTotalTicks, c.lastSampleTime with
  | some prevTicks, some prevTime =>
      let deltaTicks := wrapI64 (totalTicks - prevTicks)
      if prevTime < now ∧ 0 ≤ deltaTicks then some (deltaTicks, now - prevTime) else none
  | _, _ => none

/-- `collect`, on what `snapshot` returns, with a walk of at most `fuel` rounds. -/
def collect (fuel : ℕ) (snap : Except MetricsError TreeSnapshot)
    (files : ℕ → ℤ → Option StatLine) (now : ℕ) (c : ProcTreeCollector) :
    Option (Metrics × ProcTreeCollector) :=
  match findDescendants fuel snap c.rootPid with
  | none => none
  | some found =>
      let pids := match found with
        | .ok pids => pids
        | .error _ => [c.rootPid]
      let total := addStats files 0 pids (0, 0)
      some ({ timestamp := now
              memoryBytes := wrapI64 (total.2 * pageSize)
              cpu := cpuDelta c now total.1 },
        { c with lastTotalTicks := some total.1, lastSampleTime := some now })

/-! ### What is added up -/

/-- The ticks that a process counts with. -/
def ticksOf (line : Option StatLine) : ℤ := line.elim 0 fun l => l.utime + l.stime

/-- The resident pages that a process counts with. -/
def pagesOf (line : Option StatLine) : ℤ := line.elim 0 StatLine.rss

variable {files : ℕ → ℤ → Option StatLine} {tree : TreeSnapshot}

/-- The sums, each process with the line of its round. -/
theorem addStats_eq (pids : List ℤ) (round : ℕ) (ticks pages : ℤ) :
    addStats files round pids (wrapI64 ticks, wrapI64 pages) =
      (wrapI64 (ticks + ((pids.zipIdx round).map fun p => ticksOf (files p.2 p.1)).sum),
        wrapI64 (pages + ((pids.zipIdx round).map fun p => pagesOf (files p.2 p.1)).sum)) := by
  induction pids generalizing round ticks pages with
  | nil => simp [addStats]
  | cons pid pids ih =>
      rw [addStats, List.zipIdx_cons, List.map_cons, List.sum_cons, List.map_cons, List.sum_cons]
      cases hline : files round pid with
      | none =>
          have herr : readProcStat (Option.map StatLine.bytes none) = .error (.error .io) := rfl
          rw [herr, ticksOf, pagesOf, Option.elim_none, Option.elim_none, zero_add, zero_add]
          exact ih (round + 1) ticks pages
      | some l =>
          have hwrap : ∀ a b : ℤ, wrapI64 (wrapI64 a + b) = wrapI64 (a + b) := fun a b =>
            Int.bmod_add_bmod
          rw [Option.map_some, l.readProcStat_bytes, ticksOf, pagesOf, Option.elim_some,
            Option.elim_some]
          have hrest := ih (round + 1) (ticks + (l.utime + l.stime)) (pages + l.rss)
          rw [add_assoc ticks, add_assoc pages] at hrest
          simp only [hwrap]
          exact hrest

theorem sum_zipIdx_of_nodup {pids : List ℤ} (h : pids.Nodup) (count : ℕ → ℤ → ℤ) :
    ((pids.zipIdx).map fun p => count p.2 p.1).sum =
      ∑ x ∈ pids.toFinset, count (pids.idxOf x) x := by
  rw [List.sum_toFinset _ h]
  congr 1
  apply List.ext_getElem
  · simp
  · intro i hi hi'
    simp [h.idxOf_getElem]

theorem finite_children (hfin : {p | tree p ≠ []}.Finite) :
    {c | ∃ p, IsParent tree p c}.Finite := by
  apply (hfin.biUnion fun p _ => (tree p).finite_toSet).subset
  rintro c ⟨p, hc⟩
  rw [Set.mem_iUnion₂]
  exact ⟨p, List.ne_nil_of_mem hc, hc⟩

/-- **The totals.** In a map in which each process has one parent and the root is not below itself,
`find_descendants` returns the root and each of its descendants once, and `collect` adds up, for
each of these processes, what one reading of its stat line gives. -/
theorem collect_countsOnce (c : ProcTreeCollector) (now : ℕ)
    (files : ℕ → ℤ → Option StatLine) (hfin : {p | tree p ≠ []}.Finite) (hone : OneParent tree)
    (hroot : ¬ Above tree c.rootPid c.rootPid) :
    ∃ fuel pids, findDescendants fuel (.ok tree) c.rootPid = some (.ok pids) ∧ pids.Nodup ∧
      (∀ x, x ∈ pids ↔ InSubtree tree c.rootPid x) ∧
      ∃ m c', collect fuel (.ok tree) files now c = some (m, c') ∧
        c'.lastTotalTicks =
          some (wrapI64 (∑ x ∈ pids.toFinset, ticksOf (files (pids.idxOf x) x))) ∧
        m.memoryBytes =
          wrapI64 ((∑ x ∈ pids.toFinset, pagesOf (files (pids.idxOf x) x)) * pageSize) := by
  obtain ⟨fuel, pids, hpids, hnodup, hmem⟩ :=
    findDescendants_subtree (finite_children hfin) hone hroot
  refine ⟨fuel, pids, hpids, hnodup, hmem, ?_⟩
  have hsum := @addStats_eq files pids 0 0 0
  rw [sum_zipIdx_of_nodup hnodup fun round x => ticksOf (files round x),
    sum_zipIdx_of_nodup hnodup fun round x => pagesOf (files round x), zero_add, zero_add] at hsum
  have hzero : wrapI64 0 = 0 := rfl
  rw [hzero] at hsum
  rw [collect, hpids]
  refine ⟨_, _, rfl, ?_, ?_⟩
  · rw [hsum]
  · rw [hsum]
    exact Int.bmod_mul_bmod

theorem finite_parents_treeOf (links : List (ℤ × ℤ)) : {p | treeOf links p ≠ []}.Finite := by
  apply (links.map Prod.fst).finite_toSet.subset
  intro p hp
  obtain ⟨c, hc⟩ := List.exists_mem_of_ne_nil _ hp
  exact List.mem_map.mpr ⟨(p, c), mem_treeOf.mp hc, rfl⟩

/-- Three processes below each other. -/
theorem collect_chain :
    ∃ fuel pids, findDescendants fuel (.ok (treeOf chainLinks)) 1 = some (.ok pids) ∧
      pids.Nodup ∧ (∀ x, x ∈ pids ↔ InSubtree (treeOf chainLinks) 1 x) ∧
      ∃ m c', collect fuel (.ok (treeOf chainLinks)) (fun round x => (idleFiles round x).stat) 7
          ⟨1, none, none⟩ = some (m, c') ∧
        c'.lastTotalTicks = some (wrapI64 (∑ x ∈ pids.toFinset,
          ticksOf (idleFiles (pids.idxOf x) x).stat)) ∧
        m.memoryBytes = wrapI64 ((∑ x ∈ pids.toFinset,
          pagesOf (idleFiles (pids.idxOf x) x).stat) * pageSize) :=
  collect_countsOnce ⟨1, none, none⟩ 7 (fun round x => (idleFiles round x).stat)
    (finite_parents_treeOf chainLinks) (oneParent_treeOf (by decide))
    (not_above_self (by decide) 1)

end Metrics

end Unitpm
