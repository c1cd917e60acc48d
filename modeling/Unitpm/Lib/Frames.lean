import Mathlib.Data.List.Basic
import Mathlib.Tactic.Common

/-! # Frames of a stream

A stream that is split after each separator: `cut` is the first frame and what follows it, `frames`
is all of them, the last one perhaps without a separator; `split` is those that have one, and what
is left.  Elements that are no separator can be put in front of a stream without changing where it
is cut (`cut_append`), and what is left of a beginning can be put in front of the rest
(`split_append`), which is what makes the frames independent of how the stream arrives. -/

namespace Frames

variable {α : Type} [DecidableEq α] {sep : α}

/-- The first frame, separator included, and the rest. -/
def cut (sep : α) : List α → List α × List α
  | [] => ([], [])
  | a :: l => if a = sep then ([a], l) else (a :: (cut sep l).1, (cut sep l).2)

/-- The stream split after each separator. -/
def frames (sep : α) : List α → List (List α)
  | [] => []
  | a :: l =>
      if a = sep then [a] :: frames sep l
      else match frames sep l with
        | [] => [[a]]
        | f :: fs => (a :: f) :: fs

/-- The frames that end in a separator, and what follows the last of them. -/
def split (sep : α) : List α → List (List α) × List α
  | [] => ([], [])
  | a :: l =>
      if a = sep then ([a] :: (split sep l).1, (split sep l).2)
      else match (split sep l).1 with
        | [] => ([], a :: (split sep l).2)
        | f :: fs => ((a :: f) :: fs, (split sep l).2)

/-! ### The first frame -/

theorem cut_append_cut (l : List α) : (cut sep l).1 ++ (cut sep l).2 = l := by
  induction l with
  | nil => rfl
  | cons a l ih =>
      rw [cut]
      split_ifs
      · rfl
      · rw [List.cons_append, ih]

theorem cut_append {p : List α} (hp : sep ∉ p) (l : List α) :
    cut sep (p ++ l) = (p ++ (cut sep l).1, (cut sep l).2) := by
  induction p with
  | nil => rfl
  | cons a p ih =>
      rw [List.mem_cons, not_or] at hp
      rw [List.cons_append, cut, if_neg (Ne.symm hp.1), ih hp.2]
      rfl

theorem cut_of_notMem {p : List α} (hp : sep ∉ p) : cut sep p = (p, []) := by
  have h := cut_append hp []
  rwa [List.append_nil, cut, List.append_nil] at h

theorem cut_append_sep {p : List α} (hp : sep ∉ p) (l : List α) :
    cut sep (p ++ sep :: l) = (p ++ [sep], l) := by
  rw [cut_append hp, cut, if_pos rfl]

theorem cut_append_of_mem {p : List α} (hp : sep ∈ p) (l : List α) :
    (cut sep (p ++ l)).1 = (cut sep p).1 := by
  obtain ⟨q, m, rfl, hq⟩ := List.eq_append_cons_of_mem hp
  rw [List.append_assoc, List.cons_append, cut_append_sep hq, cut_append_sep hq]

theorem cut_fst_eq_nil {l : List α} : (cut sep l).1 = [] ↔ l = [] := by
  cases l with
  | nil => exact ⟨fun _ => rfl, fun _ => rfl⟩
  | cons a l =>
      rw [cut]
      split_ifs <;> simp

/-! ### All frames -/

theorem frames_of_ne_nil {l : List α} (hl : l ≠ []) :
    frames sep l = (cut sep l).1 :: frames sep (cut sep l).2 := by
  induction l with
  | nil => exact absurd rfl hl
  | cons a l ih =>
      rw [frames, cut]
      split_ifs
      · rfl
      · by_cases hn : l = []
        · subst hn
          rfl
        · rw [ih hn]

theorem flatten_frames (l : List α) : (frames sep l).flatten = l := by
  induction l with
  | nil => rfl
  | cons a l ih =>
      rw [frames]
      split_ifs
      · rw [List.flatten_cons, ih, List.singleton_append]
      · cases hf : frames sep l with
        | nil =>
            rw [hf] at ih
            rw [← ih]
            rfl
        | cons f fs =>
            rw [hf, List.flatten_cons] at ih
            simp only [List.flatten_cons, List.cons_append, ih]

theorem frames_flatMap {ls : List (List α)} (h : ∀ l ∈ ls, sep ∉ l) :
    frames sep (ls.flatMap fun l => l ++ [sep]) = ls.map fun l => l ++ [sep] := by
  induction ls with
  | nil => rfl
  | cons l ls ih =>
      obtain ⟨hl, hls⟩ := List.forall_mem_cons.mp h
      rw [List.flatMap_cons, frames_of_ne_nil (by simp), List.append_assoc, List.singleton_append,
        cut_append_sep hl, ih hls, List.map_cons]

/-! ### Complete frames -/

theorem split_of_notMem {p : List α} (hp : sep ∉ p) : split sep p = ([], p) := by
  induction p with
  | nil => rfl
  | cons a p ih =>
      rw [List.mem_cons, not_or] at hp
      rw [split, if_neg (Ne.symm hp.1), ih hp.2]

theorem split_append_sep {p : List α} (hp : sep ∉ p) (l : List α) :
    split sep (p ++ sep :: l) = ((p ++ [sep]) :: (split sep l).1, (split sep l).2) := by
  induction p with
  | nil => rw [List.nil_append, split, if_pos rfl, List.nil_append]
  | cons a p ih =>
      rw [List.mem_cons, not_or] at hp
      rw [List.cons_append, split, if_neg (Ne.symm hp.1), ih hp.2, List.cons_append]

theorem notMem_or_exists (sep : α) (l : List α) :
    sep ∉ l ∨ ∃ p m, l = p ++ sep :: m ∧ sep ∉ p := by
  by_cases h : sep ∈ l
  · obtain ⟨p, m, rfl, hp⟩ := List.eq_append_cons_of_mem h
    exact .inr ⟨p, m, rfl, hp⟩
  · exact .inl h

theorem frame_induction (sep : α) {motive : List α → Prop} (hlast : ∀ p, sep ∉ p → motive p)
    (hframe : ∀ p l, sep ∉ p → motive l → motive (p ++ sep :: l)) (l : List α) : motive l := by
  induction h : l.length using Nat.strongRecOn generalizing l with
  | _ n ih =>
      rcases notMem_or_exists sep l with hl | ⟨p, m, rfl, hp⟩
      · exact hlast l hl
      · refine hframe p m hp (ih m.length ?_ m rfl)
        rw [← h, List.length_append, List.length_cons]
        omega

theorem flatten_split (l : List α) : (split sep l).1.flatten ++ (split sep l).2 = l := by
  induction l using frame_induction sep with
  | hlast p hp => rw [split_of_notMem hp, List.flatten_nil, List.nil_append]
  | hframe p l hp ih =>
      rw [split_append_sep hp, List.flatten_cons, List.append_assoc, ih, List.append_assoc,
        List.singleton_append]

theorem notMem_snd_split (l : List α) : sep ∉ (split sep l).2 := by
  induction l using frame_induction sep with
  | hlast p hp =>
      rw [split_of_notMem hp]
      exact hp
  | hframe p l hp ih =>
      rw [split_append_sep hp]
      exact ih

theorem exists_of_mem_split {l f : List α} (hf : f ∈ (split sep l).1) :
    ∃ p, f = p ++ [sep] ∧ sep ∉ p := by
  induction l using frame_induction sep with
  | hlast p hp =>
      rw [split_of_notMem hp] at hf
      cases hf
  | hframe p l hp ih =>
      rw [split_append_sep hp] at hf
      rcases List.mem_cons.mp hf with rfl | hf
      · exact ⟨p, rfl, hp⟩
      · exact ih hf

theorem split_append (l m : List α) :
    split sep (l ++ m) =
      ((split sep l).1 ++ (split sep ((split sep l).2 ++ m)).1,
        (split sep ((split sep l).2 ++ m)).2) := by
  induction l using frame_induction sep with
  | hlast p hp => rw [split_of_notMem hp, List.nil_append]
  | hframe p l hp ih =>
      rw [List.append_assoc, List.cons_append, split_append_sep hp, ih, split_append_sep hp,
        List.cons_append]

theorem snd_split_append_sep (l m : List α) :
    (split sep (l ++ sep :: m)).2 = (split sep m).2 := by
  have hsep : split sep ((split sep l).2 ++ sep :: m) =
      (((split sep l).2 ++ [sep]) :: (split sep m).1, (split sep m).2) :=
    split_append_sep (notMem_snd_split l) m
  rw [split_append, hsep]

theorem exists_of_mem {l : List α} (h : sep ∈ l) : ∃ q, l = q ++ sep :: (split sep l).2 := by
  induction l using frame_induction sep with
  | hlast p hp => exact absurd h hp
  | hframe p l hp ih =>
      rw [split_append_sep hp]
      by_cases hl : sep ∈ l
      · obtain ⟨q, hq⟩ := ih hl
        refine ⟨p ++ sep :: q, ?_⟩
        conv_lhs => rw [hq]
        simp
      · rw [split_of_notMem hl]
        exact ⟨p, rfl⟩

theorem frames_eq_split (l : List α) :
    frames sep l = (split sep l).1 ++ if (split sep l).2 = [] then [] else [(split sep l).2] := by
  induction l using frame_induction sep with
  | hlast p hp =>
      rw [split_of_notMem hp, List.nil_append]
      by_cases hnil : p = []
      · rw [if_pos hnil, hnil, frames]
      · rw [if_neg hnil, frames_of_ne_nil hnil, cut_of_notMem hp, frames]
  | hframe p l hp ih =>
      have hne : p ++ sep :: l ≠ [] := by simp
      rw [frames_of_ne_nil hne, cut_append_sep hp, split_append_sep hp, ih, List.cons_append]

end Frames
