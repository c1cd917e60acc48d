import Mathlib.Data.List.DropRight
import Mathlib.Data.List.Forall2
import Mathlib.Data.List.Perm.Basic
import Mathlib.Order.Lattice

/-! # Merging sources

Sources are lists, taken from their heads.  `Interleaves ss l` says that `l` comes about by taking
the head of one of the sources `ss` at a time until all are empty, and `Merges key ss l` that each
head taken is the first of those with the least key.

`Merges` determines its result (`Merges.unique`), and an implementation is proved against it.  What
is known of the result follows from the rounds: nothing is lost and each source keeps its order
(`Interleaves.perm`, `Interleaves.sublist`), sorted sources give a sorted result (`Merges.sorted`),
the last `n` of the result depend on the last `n` of each sorted source only (`Merges.rtake_eq`),
and parts of the sources that come before all heads of what is behind them are merged on their own
(`Merges.append`). -/

namespace Merging

variable {α κ : Type}

/-! ### Interleavings -/

/-- `l` takes all elements of the sources, the head of one source at a time. -/
inductive Interleaves : List (List α) → List α → Prop
  | nil {ss : List (List α)} : (∀ s ∈ ss, s = []) → Interleaves ss []
  | cons {ss : List (List α)} {i : ℕ} {x : α} {s l : List α} :
      ss[i]? = some (x :: s) → Interleaves (ss.set i s) l → Interleaves ss (x :: l)

theorem flatten_perm_cons {ss : List (List α)} {i : ℕ} {x : α} {s : List α}
    (h : ss[i]? = some (x :: s)) : ss.flatten.Perm (x :: (ss.set i s).flatten) := by
  induction ss generalizing i with
  | nil => simp at h
  | cons t ss ih =>
      cases i with
      | zero =>
          rw [List.getElem?_cons_zero, Option.some.injEq] at h
          rw [h, List.set_cons_zero, List.flatten_cons, List.flatten_cons, List.cons_append]
      | succ i =>
          rw [List.getElem?_cons_succ] at h
          rw [List.set_cons_succ, List.flatten_cons, List.flatten_cons]
          exact ((ih h).append_left t).trans List.perm_middle

theorem Interleaves.perm {ss : List (List α)} {l : List α} (h : Interleaves ss l) :
    l.Perm ss.flatten := by
  induction h with
  | nil h => rw [List.flatten_eq_nil_iff.2 h]
  | cons h _ ih => exact (ih.cons _).trans (flatten_perm_cons h).symm

theorem Interleaves.sublist {ss : List (List α)} {l : List α} (h : Interleaves ss l) :
    ∀ s ∈ ss, s.Sublist l := by
  induction h with
  | nil h =>
      intro s hs
      rw [h s hs]
  | @cons ss i x s l hi _ ih =>
      intro t ht
      obtain ⟨j, hj, rfl⟩ := List.getElem_of_mem ht
      by_cases hij : i = j
      · subst hij
        rw [List.getElem?_eq_getElem hj, Option.some.injEq] at hi
        rw [hi]
        exact (ih s (List.mem_set hj s)).cons_cons x
      · refine (ih _ ?_).cons x
        rw [← List.getElem_set_ne hij (by simpa using hj)]
        exact List.getElem_mem _

theorem Interleaves.mem_iff {ss : List (List α)} {l : List α} (h : Interleaves ss l) (x : α) :
    x ∈ l ↔ ∃ s ∈ ss, x ∈ s := by
  rw [h.perm.mem_iff, List.mem_flatten]

/-! ### The first of the least heads -/

section

variable [LinearOrder κ] {key : α → κ}

/-- `x` is the head of source `i`, the first of the heads with the least key, and `s` is behind
it. -/
structure Picks (key : α → κ) (ss : List (List α)) (i : ℕ) (x : α) (s : List α) : Prop where
  at_source : ss[i]? = some (x :: s)
  least : ∀ (j : ℕ) (y : α) (t : List α), ss[j]? = some (y :: t) → key x ≤ key y
  first : ∀ (j : ℕ) (y : α) (t : List α), ss[j]? = some (y :: t) → j < i → key x < key y

/-- `l` takes all elements of the sources, the first of the least heads at a time. -/
inductive Merges (key : α → κ) : List (List α) → List α → Prop
  | nil {ss : List (List α)} : (∀ s ∈ ss, s = []) → Merges key ss []
  | cons {ss : List (List α)} {i : ℕ} {x : α} {s l : List α} :
      Picks key ss i x s → Merges key (ss.set i s) l → Merges key ss (x :: l)

theorem Picks.unique {ss : List (List α)} {i j : ℕ} {x y : α} {s t : List α}
    (h : Picks key ss i x s) (h' : Picks key ss j y t) : i = j ∧ x = y ∧ s = t := by
  have hij : i = j := by
    rcases lt_trichotomy i j with hlt | heq | hgt
    · exact absurd (h'.first i x s h.at_source hlt) (h.least j y t h'.at_source).not_gt
    · exact heq
    · exact absurd (h.first j y t h'.at_source hgt) (h'.least i x s h.at_source).not_gt
  subst hij
  have hx := h.at_source.symm.trans h'.at_source
  rw [Option.some.injEq, List.cons.injEq] at hx
  exact ⟨rfl, hx⟩

theorem Picks.not_all_nil {ss : List (List α)} {i : ℕ} {x : α} {s : List α}
    (h : Picks key ss i x s) : ¬ ∀ t ∈ ss, t = [] := by
  intro hnil
  exact List.cons_ne_nil x s (hnil _ (List.mem_of_getElem? h.at_source))

theorem Merges.of_picks {ss : List (List α)} {i : ℕ} {x : α} {s l : List α}
    (h : Merges key ss l) (hp : Picks key ss i x s) :
    ∃ l', l = x :: l' ∧ Merges key (ss.set i s) l' := by
  cases h with
  | nil hnil => exact absurd hnil hp.not_all_nil
  | cons hp' hl =>
      obtain ⟨rfl, rfl, rfl⟩ := hp.unique hp'
      exact ⟨_, rfl, hl⟩

theorem Merges.eq_nil {ss : List (List α)} {l : List α} (h : Merges key ss l)
    (hnil : ∀ s ∈ ss, s = []) : l = [] := by
  cases h with
  | nil _ => rfl
  | cons hp _ => exact absurd hnil hp.not_all_nil

theorem Merges.unique {ss : List (List α)} {l l' : List α} (h : Merges key ss l)
    (h' : Merges key ss l') : l = l' := by
  induction h generalizing l' with
  | nil hnil => exact (h'.eq_nil hnil).symm
  | cons hp _ ih =>
      obtain ⟨l'', rfl, hl⟩ := h'.of_picks hp
      rw [ih hl]

theorem Merges.interleaves {ss : List (List α)} {l : List α} (h : Merges key ss l) :
    Interleaves ss l := by
  induction h with
  | nil hnil => exact .nil hnil
  | cons hp _ ih => exact .cons hp.at_source ih

/-! ### Sorted sources -/

/-- A list in the order of its keys. -/
def Sorted (key : α → κ) (l : List α) : Prop := l.Pairwise fun a b => key a ≤ key b

theorem Sorted.head_le {x : α} {s : List α} (h : Sorted key (x :: s)) {y : α}
    (hy : y ∈ x :: s) : key x ≤ key y := by
  rcases List.mem_cons.1 hy with rfl | hy
  · exact le_rfl
  · exact (List.pairwise_cons.1 h).1 y hy

theorem sorted_set {ss : List (List α)} {i : ℕ} {x : α} {s : List α}
    (h : ∀ t ∈ ss, Sorted key t) (hi : ss[i]? = some (x :: s)) :
    ∀ t ∈ ss.set i s, Sorted key t := by
  intro t ht
  rcases List.mem_or_eq_of_mem_set ht with ht | rfl
  · exact h t ht
  · exact (List.pairwise_cons.1 (h _ (List.mem_of_getElem? hi))).2

theorem Picks.le_of_mem {ss : List (List α)} {i : ℕ} {x y : α} {s t : List α}
    (hp : Picks key ss i x s) (h : ∀ t ∈ ss, Sorted key t) (ht : t ∈ ss) (hy : y ∈ t) :
    key x ≤ key y := by
  cases t with
  | nil => simp at hy
  | cons z t =>
      obtain ⟨j, hj⟩ := List.mem_iff_getElem?.1 ht
      exact (hp.least j z t hj).trans ((h _ ht).head_le hy)

theorem Merges.sorted {ss : List (List α)} {l : List α} (h : Merges key ss l)
    (hs : ∀ s ∈ ss, Sorted key s) : Sorted key l := by
  induction h with
  | nil _ => exact List.Pairwise.nil
  | @cons ss i x s l hp hl ih =>
      refine List.pairwise_cons.2 ⟨?_, ih (sorted_set hs hp.at_source)⟩
      intro y hy
      obtain ⟨t, ht, hyt⟩ := (hl.interleaves.mem_iff y).1 hy
      rcases List.mem_or_eq_of_mem_set ht with ht | rfl
      · exact hp.le_of_mem hs ht hyt
      · exact hp.le_of_mem hs (List.mem_of_getElem? hp.at_source) (List.mem_cons_of_mem x hyt)

/-! ### The last elements -/

theorem rtake_of_length_le {l : List α} {n : ℕ} (h : l.length ≤ n) : l.rtake n = l := by
  rw [List.rtake, Nat.sub_eq_zero_of_le h, List.drop_zero]

theorem rtake_cons_of_le {l : List α} {n : ℕ} (x : α) (h : n ≤ l.length) :
    (x :: l).rtake n = l.rtake n := by
  rw [List.rtake, List.rtake, List.length_cons, Nat.succ_sub h, List.drop_succ_cons]

theorem length_rtake (l : List α) (n : ℕ) : (l.rtake n).length = min n l.length := by
  rw [List.rtake, List.length_drop]
  omega

theorem rtake_cons_congr {l l' : List α} {n : ℕ} (x : α) (h : l.rtake n = l'.rtake n) :
    (x :: l).rtake n = (x :: l').rtake n := by
  have hlen := congrArg List.length h
  rw [length_rtake, length_rtake] at hlen
  by_cases hl : n ≤ l.length
  · rw [rtake_cons_of_le x hl, rtake_cons_of_le x (by omega), h]
  · rw [rtake_of_length_le (by omega), rtake_of_length_le (by omega)] at h
    rw [h]

/-- `s'` is what is left of `s` when elements that have `n` others behind them are taken off its
head. -/
def Cut (n : ℕ) (s s' : List α) : Prop := s' <:+ s ∧ (s' = s ∨ n ≤ s'.length)

theorem cut_rtake (n : ℕ) (s : List α) : Cut n s (s.rtake n) := by
  refine ⟨List.drop_suffix _ s, ?_⟩
  by_cases hs : s.length ≤ n
  · exact .inl (rtake_of_length_le hs)
  · right
    rw [length_rtake]
    omega

theorem Cut.refl (n : ℕ) (s : List α) : Cut n s s := ⟨List.suffix_refl s, .inl rfl⟩

theorem Cut.eq_or {n : ℕ} {x : α} {s s' : List α} (h : Cut n (x :: s) s') :
    s' = x :: s ∨ Cut n s s' ∧ n ≤ s'.length := by
  obtain ⟨hsuffix, heq | hlong⟩ := h
  · exact .inl heq
  · rcases List.suffix_cons_iff.1 hsuffix with heq | hsuffix
    · exact .inl heq
    · exact .inr ⟨⟨hsuffix, .inr hlong⟩, hlong⟩

theorem forall₂_set {R : List α → List α → Prop} {ss ss' : List (List α)} {s s' : List α}
    (h : List.Forall₂ R ss ss') (hs : R s s') (i : ℕ) :
    List.Forall₂ R (ss.set i s) (ss'.set i s') := by
  induction h generalizing i with
  | nil => exact .nil
  | cons hab hrest ih =>
      cases i with
      | zero => exact .cons hs hrest
      | succ i => exact .cons hab (ih i)

/-- Cut sources pick what the whole ones pick, as long as its source is not cut. -/
theorem Picks.of_cut {n i : ℕ} {ss ss' : List (List α)} {x : α} {s : List α}
    (hp : Picks key ss i x s) (hs : ∀ s ∈ ss, Sorted key s) (hc : List.Forall₂ (Cut n) ss ss')
    (hi : ss'[i]? = some (x :: s)) : Picks key ss' i x s := by
  -- a head of a cut source is no earlier than the head of the whole one
  have hhead : ∀ (j : ℕ) (y : α) (t : List α), ss'[j]? = some (y :: t) →
      ∃ z u, ss[j]? = some (z :: u) ∧ key z ≤ key y := by
    intro j y t hj
    obtain ⟨hj', hget⟩ := List.getElem?_eq_some_iff.1 hj
    have hlt : j < ss.length := hc.length_eq ▸ hj'
    have hcut : Cut n ss[j] ss'[j] := hc.get hlt hj'
    have hy : y ∈ ss[j] := hcut.1.subset (by simp [hget])
    cases hsj : ss[j] with
    | nil => simp [hsj] at hy
    | cons z u =>
        have hsorted := hs _ (List.getElem_mem hlt)
        rw [hsj] at hsorted hy
        exact ⟨z, u, by rw [List.getElem?_eq_getElem hlt, hsj], hsorted.head_le hy⟩
  refine ⟨hi, ?_, ?_⟩
  · intro j y t hj
    obtain ⟨z, u, hz, hzy⟩ := hhead j y t hj
    exact (hp.least j z u hz).trans hzy
  · intro j y t hj hji
    obtain ⟨z, u, hz, hzy⟩ := hhead j y t hj
    exact (hp.first j z u hz hji).trans_le hzy

/-- The last `n` elements of a merge of sorted sources are those of a merge of cut sources. -/
theorem Merges.rtake_eq {n : ℕ} {ss ss' : List (List α)} {l l' : List α} (h : Merges key ss l)
    (h' : Merges key ss' l') (hs : ∀ s ∈ ss, Sorted key s) (hc : List.Forall₂ (Cut n) ss ss') :
    l.rtake n = l'.rtake n := by
  induction h generalizing ss' l' with
  | @nil ss hnil =>
      rw [h'.eq_nil]
      intro s' hs'
      obtain ⟨j, hj, rfl⟩ := List.getElem_of_mem hs'
      have hlt : j < ss.length := hc.length_eq ▸ hj
      have hsuffix : ss'[j] <:+ ss[j] := (hc.get hlt hj).1
      rw [hnil _ (List.getElem_mem hlt)] at hsuffix
      exact List.suffix_nil.1 hsuffix
  | @cons ss i x s l hp hl ih =>
      obtain ⟨hlt, hget⟩ := List.getElem?_eq_some_iff.1 hp.at_source
      have hlt' : i < ss'.length := hc.length_eq ▸ hlt
      have hcut : Cut n ss[i] ss'[i] := hc.get hlt hlt'
      rw [hget] at hcut
      rcases hcut.eq_or with hwhole | ⟨hcut, hlong⟩
      · -- the source is whole: both take the same head
        have hi : ss'[i]? = some (x :: s) := by rw [List.getElem?_eq_getElem hlt', hwhole]
        obtain ⟨l'', rfl, hl''⟩ := h'.of_picks (hp.of_cut hs hc hi)
        exact rtake_cons_congr x
          (ih hl'' (sorted_set hs hp.at_source) (forall₂_set hc (Cut.refl n s) i))
      · -- the head is cut off, and `n` elements are behind it
        have hc' : List.Forall₂ (Cut n) (ss.set i s) ss' := by
          have hset := forall₂_set hc hcut i
          rwa [List.set_getElem_self] at hset
        have hlen : n ≤ l.length := by
          have h1 := hcut.1.length_le
          have h2 := (hl.interleaves.sublist s (List.mem_set hlt s)).length_le
          omega
        rw [rtake_cons_of_le x hlen]
        exact ih h' (sorted_set hs hp.at_source) hc'

/-! ### Parts that are merged on their own -/

/-- If everything in `us` comes before every head of `vs`, what `us` gives is followed by what `vs`
gives. -/
theorem Merges.append {us vs : List (List α)} {l l' : List α} (h : Merges key us l)
    (h' : Merges key vs l') (hlen : us.length = vs.length)
    (hbefore : ∀ u ∈ us, ∀ a ∈ u, ∀ v ∈ vs, ∀ b ∈ v.head?, key a < key b) :
    Merges key (List.zipWith (· ++ ·) us vs) (l ++ l') := by
  induction h with
  | @nil us hnil =>
      have hzip : List.zipWith (· ++ ·) us vs = vs := by
        refine List.ext_getElem? fun j => ?_
        rw [List.getElem?_zipWith]
        by_cases hj : j < vs.length
        · have hj' : j < us.length := hlen ▸ hj
          simp [hj, hj', hnil us[j] (List.getElem_mem hj')]
        · simp [hj]
      rwa [hzip, List.nil_append]
  | @cons us i x s l hp hl ih =>
      obtain ⟨hi, hget⟩ := List.getElem?_eq_some_iff.1 hp.at_source
      have hi' : i < vs.length := hlen ▸ hi
      have hx : x ∈ us[i] := by simp [hget]
      -- a head of `us ++ vs` is a head of `us`, or comes after `x`
      have hhead : ∀ (j : ℕ) (y : α) (t : List α),
          (List.zipWith (· ++ ·) us vs)[j]? = some (y :: t) →
          (∃ t', us[j]? = some (y :: t')) ∨ key x < key y := by
        intro j y t hj
        obtain ⟨hj, hgetj⟩ := List.getElem?_eq_some_iff.1 hj
        rw [List.length_zipWith] at hj
        have hju : j < us.length := by omega
        have hjv : j < vs.length := by omega
        rw [List.getElem_zipWith] at hgetj
        cases huj : us[j] with
        | nil =>
            rw [huj, List.nil_append] at hgetj
            right
            exact hbefore _ (List.getElem_mem hi) x hx _ (List.getElem_mem hjv) y (by simp [hgetj])
        | cons z u =>
            rw [huj, List.cons_append, List.cons.injEq] at hgetj
            exact .inl ⟨u, by rw [List.getElem?_eq_getElem hju, huj, hgetj.1]⟩
      have hpick : Picks key (List.zipWith (· ++ ·) us vs) i x (s ++ vs[i]) := by
        refine ⟨?_, ?_, ?_⟩
        · simp [List.getElem?_zipWith, hp.at_source, List.getElem?_eq_getElem hi']
        · intro j y t hj
          rcases hhead j y t hj with ⟨t', ht'⟩ | hlt
          · exact hp.least j y t' ht'
          · exact hlt.le
        · intro j y t hj hji
          rcases hhead j y t hj with ⟨t', ht'⟩ | hlt
          · exact hp.first j y t' ht' hji
          · exact hlt
      refine .cons hpick ?_
      have hset : (List.zipWith (· ++ ·) us vs).set i (s ++ vs[i]) =
          List.zipWith (· ++ ·) (us.set i s) vs := by
        refine List.ext_getElem? fun j => ?_
        rw [List.getElem?_zipWith, List.getElem?_set, List.getElem?_set, List.length_zipWith]
        by_cases hij : i = j
        · subst hij
          have hmin : i < min us.length vs.length := lt_min hi hi'
          simp [hi, hi', hmin]
        · simp [hij, List.getElem?_zipWith]
      rw [hset]
      refine ih (by rw [List.length_set, hlen]) ?_
      intro u hu a ha v hv b hb
      rcases List.mem_or_eq_of_mem_set hu with hu | rfl
      · exact hbefore u hu a ha v hv b hb
      · exact hbefore _ (List.getElem_mem hi) a (by rw [hget]; exact List.mem_cons_of_mem x ha)
          v hv b hb

theorem Picks.cons_nil {ss : List (List α)} {i : ℕ} {x : α} {s : List α}
    (h : Picks key ss i x s) : Picks key ([] :: ss) (i + 1) x s := by
  refine ⟨h.at_source, ?_, ?_⟩
  · intro j y t hj
    cases j with
    | zero => cases hj
    | succ j => exact h.least j y t hj
  · intro j y t hj hji
    cases j with
    | zero => cases hj
    | succ j => exact h.first j y t hj (Nat.lt_of_succ_lt_succ hji)

theorem Merges.cons_nil {ss : List (List α)} {l : List α} (h : Merges key ss l) :
    Merges key ([] :: ss) l := by
  induction h with
  | nil hnil => exact .nil (by simpa using hnil)
  | cons hp _ ih => exact .cons hp.cons_nil ih

/-- If everything in a source comes before the heads of those behind it, the sources follow one
another. -/
theorem merges_flatten {ss : List (List α)}
    (h : ss.Pairwise fun s t => ∀ a ∈ s, ∀ b ∈ t.head?, key a < key b) :
    Merges key ss ss.flatten := by
  induction ss with
  | nil => exact .nil (by simp)
  | cons s ss ih =>
      obtain ⟨hs, hrest⟩ := List.pairwise_cons.1 h
      clear h
      induction s with
      | nil => exact (ih hrest).cons_nil
      | cons x s ihs =>
          have hx : ∀ (j : ℕ) (y : α) (t : List α), ss[j]? = some (y :: t) → key x < key y := by
            intro j y t hj
            exact hs _ (List.mem_of_getElem? hj) x List.mem_cons_self y rfl
          have hpick : Picks key ((x :: s) :: ss) 0 x s := by
            refine ⟨rfl, ?_, fun j y t _ hj => absurd hj (Nat.not_lt_zero j)⟩
            intro j y t hj
            cases j with
            | zero =>
                rw [List.getElem?_cons_zero, Option.some.injEq, List.cons.injEq] at hj
                exact (congrArg key hj.1).le
            | succ j => exact (hx j y t hj).le
          exact .cons hpick (ihs fun t ht a ha b hb => hs t ht a (List.mem_cons_of_mem x ha) b hb)

end

end Merging
