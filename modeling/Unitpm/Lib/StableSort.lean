import Mathlib.Data.List.Sort
import Mathlib.Data.Prod.Lex

/-! # Stable sorting

Sorting a list with a comparison that may find two elements equal.  `SortedBy` says what the result
is: the elements in the order of the comparison, those that are equal in the order they had.
`sortBy` gives it (`sortBy_spec`), and nothing else is it (`SortedBy.unique`).

Two comparisons sort a list the same way if and only if they agree, for each element and each one
behind it, on whether the two change places (`sortBy_eq_iff`). -/

namespace StableSort

variable {α : Type*}

/-- The elements that a comparison does not put behind another. -/
def NotAfter (cmp : α → α → Ordering) (a b : α) : Prop := cmp a b ≠ .gt

instance (cmp : α → α → Ordering) : DecidableRel (NotAfter cmp) :=
  fun _ _ => inferInstanceAs (Decidable (_ ≠ _))

/-- A stable sort. -/
def sortBy (cmp : α → α → Ordering) (l : List α) : List α := l.insertionSort (NotAfter cmp)

/-- `s` is `l` in the order of the comparison, with equal elements in the order of `l`. -/
structure SortedBy (cmp : α → α → Ordering) (l s : List α) : Prop where
  perm : s.Perm l
  ordered : s.Pairwise (NotAfter cmp)
  stable : ∀ a, s.filter (fun b => cmp a b = .eq) = l.filter (fun b => cmp a b = .eq)

/-! ### The sort -/

section

variable {cmp : α → α → Ordering}

theorem notAfter_iff (a b : α) : NotAfter cmp a b ↔ (cmp a b).isLE = true := by
  unfold NotAfter
  cases cmp a b <;> simp

variable [Std.TransCmp cmp]

instance : Std.Total (NotAfter cmp) where
  total a b := by
    have hswap : cmp b a = (cmp a b).swap := Std.OrientedCmp.eq_swap
    rw [notAfter_iff, notAfter_iff, hswap]
    cases cmp a b <;> simp

instance : IsTrans α (NotAfter cmp) where
  trans a b c hab hbc := by
    rw [notAfter_iff] at *
    exact Std.TransCmp.isLE_trans hab hbc

theorem filter_orderedInsert (a b : α) (l : List α) :
    (l.orderedInsert (NotAfter cmp) b).filter (fun c => cmp a c = .eq) =
      (b :: l).filter (fun c => cmp a c = .eq) := by
  induction l with
  | nil => rfl
  | cons c l ih =>
      by_cases hbc : NotAfter cmp b c
      · rw [List.orderedInsert_cons_of_le _ l hbc]
      · rw [List.orderedInsert_of_not_le _ l hbc, List.filter_cons, ih]
        have hgt : cmp b c = .gt := not_not.1 hbc
        by_cases hab : cmp a b = .eq
        · -- what is before `b` is not equal to it
          have hac : cmp a c = .gt := by rw [Std.TransCmp.congr_left hab, hgt]
          simp [hab, hac]
        · simp [List.filter_cons, hab]

theorem sortBy_spec (l : List α) : SortedBy cmp l (sortBy cmp l) where
  perm := List.perm_insertionSort _ l
  ordered := List.pairwise_insertionSort _ l
  stable a := by
    induction l with
    | nil => rfl
    | cons b l ih =>
        rw [sortBy, List.insertionSort_cons, filter_orderedInsert, List.filter_cons,
          List.filter_cons]
        rw [sortBy] at ih
        rw [ih]

/-- A list is sorted in one way only. -/
theorem SortedBy.unique {l s t : List α} (hs : SortedBy cmp l s) (ht : SortedBy cmp l t) :
    s = t := by
  have hperm := hs.perm.trans ht.perm.symm
  have hstable : ∀ a, s.filter (fun b => cmp a b = .eq) = t.filter (fun b => cmp a b = .eq) :=
    fun a => (hs.stable a).trans (ht.stable a).symm
  have hso := hs.ordered
  have hto := ht.ordered
  clear hs ht
  induction s generalizing t with
  | nil => exact hperm.nil_eq
  | cons x s ih =>
      cases t with
      | nil => exact absurd hperm.symm.nil_eq (by simp)
      | cons y t =>
          -- the first elements are equal for the comparison, and so both the first of their kind
          have hxy : cmp x y = .eq := by
            have h1 : NotAfter cmp x y := by
              rcases List.mem_cons.1 (hperm.mem_iff.2 (List.mem_cons_self (a := y) (l := t)))
                with rfl | hy
              · exact (total_of (NotAfter cmp) y y).elim id id
              · exact (List.pairwise_cons.1 hso).1 y hy
            have h2 : NotAfter cmp y x := by
              rcases List.mem_cons.1 (hperm.mem_iff.1 (List.mem_cons_self (a := x) (l := s)))
                with rfl | hx
              · exact (total_of (NotAfter cmp) x x).elim id id
              · exact (List.pairwise_cons.1 hto).1 x hx
            unfold NotAfter at h1 h2
            have hswap : cmp y x = (cmp x y).swap := Std.OrientedCmp.eq_swap
            rw [hswap] at h2
            cases hc : cmp x y <;> simp_all
          have hxx : cmp x x = .eq := Std.ReflCmp.compare_self
          have hhead := hstable x
          rw [List.filter_cons_of_pos (by simpa using hxx),
            List.filter_cons_of_pos (by simpa using hxy)] at hhead
          obtain rfl := (List.cons.inj hhead).1
          have htail : ∀ a, s.filter (fun b => cmp a b = .eq) =
              t.filter (fun b => cmp a b = .eq) := by
            intro a
            have ha := hstable a
            rw [List.filter_cons, List.filter_cons] at ha
            split_ifs at ha
            · exact (List.cons.inj ha).2
            · exact ha
          rw [ih hperm.cons_inv htail (List.pairwise_cons.1 hso).2 (List.pairwise_cons.1 hto).2]

theorem sortedBy_iff {l s : List α} : SortedBy cmp l s ↔ s = sortBy cmp l := by
  constructor
  · intro h
    exact h.unique (sortBy_spec l)
  · rintro rfl
    exact sortBy_spec l

end

/-! ### Two comparisons -/

section

variable {cmp cmp' : α → α → Ordering}

theorem orderedInsert_congr {a : α} {l : List α}
    (h : ∀ b ∈ l, (cmp a b = .gt ↔ cmp' a b = .gt)) :
    l.orderedInsert (NotAfter cmp) a = l.orderedInsert (NotAfter cmp') a := by
  induction l with
  | nil => rfl
  | cons b l ih =>
      have hb : NotAfter cmp a b ↔ NotAfter cmp' a b := not_congr (h b (by simp))
      rw [List.orderedInsert_cons, List.orderedInsert_cons,
        ih fun c hc => h c (by simp [hc])]
      simp only [hb]

theorem sortBy_congr {l : List α} (h : l.Pairwise fun a b => (cmp a b = .gt ↔ cmp' a b = .gt)) :
    sortBy cmp l = sortBy cmp' l := by
  induction l with
  | nil => rfl
  | cons a l ih =>
      obtain ⟨ha, hl⟩ := List.pairwise_cons.1 h
      have hs := ih hl
      rw [sortBy, sortBy] at *
      rw [List.insertionSort_cons, List.insertionSort_cons, hs]
      exact orderedInsert_congr fun b hb => ha b ((List.mem_insertionSort _).1 hb)

theorem gt_of_sortBy_eq [Std.TransCmp cmp] {l : List α} (he : sortBy cmp l = sortBy cmp' l)
    {a b : α} (hab : [a, b].Sublist l) (hgt : cmp a b = .gt) : cmp' a b = .gt := by
  by_contra hno
  have hsub : [a, b].Sublist (sortBy cmp l) := by
    rw [he]
    exact List.pair_sublist_insertionSort hno hab
  have hpair := (List.pairwise_insertionSort (NotAfter cmp) l).sublist hsub
  exact (List.pairwise_cons.1 hpair).1 b (by simp) hgt

theorem sortBy_eq_iff [Std.TransCmp cmp] [Std.TransCmp cmp'] (l : List α) :
    sortBy cmp l = sortBy cmp' l ↔ l.Pairwise fun a b => (cmp a b = .gt ↔ cmp' a b = .gt) := by
  constructor
  · intro he
    refine List.pairwise_iff_forall_sublist.2 fun hab => ?_
    exact ⟨gt_of_sortBy_eq he hab, gt_of_sortBy_eq he.symm hab⟩
  · exact sortBy_congr

end

end StableSort
