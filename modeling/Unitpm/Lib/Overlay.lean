import Mathlib.Data.List.AList
import Mathlib.Data.List.Nodup
import Mathlib.Tactic.Common

/-! # Last binding wins

A list of key–value pairs read from left to right, a later pair replacing an earlier one with
the same key: the meaning of a sequence of `insert`s into a map, and of a sequence of settings
laid over an existing environment (`overlay`).  Where the keys are distinct, every pair is the last
one of its key (`lastVal_eq_some_iff`).

`forall_update` is the rule for what is said of every entry when one of them is replaced. -/

namespace Overlay

variable {α β : Type} [DecidableEq α]

/-- The value of the last pair with key `k`. -/
def lastVal : List (α × β) → α → Option β
  | [], _ => none
  | p :: l, k => (lastVal l k).or (if p.1 = k then some p.2 else none)

/-- `sets`, in order, on top of `base`. -/
def overlay (base : α → Option β) (sets : List (α × β)) (k : α) : Option β :=
  (lastVal sets k).or (base k)

@[simp] theorem lastVal_nil (k : α) : lastVal ([] : List (α × β)) k = none := rfl

theorem lastVal_cons (p : α × β) (l : List (α × β)) (k : α) :
    lastVal (p :: l) k = (lastVal l k).or (if p.1 = k then some p.2 else none) := rfl

theorem lastVal_append (l m : List (α × β)) (k : α) :
    lastVal (l ++ m) k = (lastVal m k).or (lastVal l k) := by
  induction l with
  | nil => simp
  | cons p l ih => rw [List.cons_append, lastVal_cons, lastVal_cons, ih, Option.or_assoc]

theorem lastVal_concat (l : List (α × β)) (p : α × β) (k : α) :
    lastVal (l ++ [p]) k = if p.1 = k then some p.2 else lastVal l k := by
  rw [lastVal_append, lastVal_cons, lastVal_nil]
  split <;> simp

theorem lastVal_eq_none_iff {l : List (α × β)} {k : α} :
    lastVal l k = none ↔ ∀ p ∈ l, p.1 ≠ k := by
  induction l with
  | nil => simp
  | cons p l ih =>
      rw [lastVal_cons, Option.or_eq_none_iff, ih]
      by_cases h : p.1 = k <;> simp [h]

theorem mem_of_lastVal {l : List (α × β)} {k : α} {v : β} (h : lastVal l k = some v) :
    (k, v) ∈ l := by
  induction l with
  | nil => cases h
  | cons p l ih =>
      rw [lastVal_cons] at h
      cases hl : lastVal l k with
      | some w =>
          rw [hl] at h
          obtain rfl : w = v := by simpa using h
          exact List.mem_cons_of_mem _ (ih hl)
      | none =>
          rw [hl, Option.none_or] at h
          split at h
          · rename_i hk
            obtain rfl : p.2 = v := by simpa using h
            rw [← hk]
            exact List.mem_cons_self
          · cases h

theorem lastVal_eq_some_iff {l : List (α × β)} (hl : (l.map Prod.fst).Nodup) {k : α} {v : β} :
    lastVal l k = some v ↔ (k, v) ∈ l := by
  refine ⟨mem_of_lastVal, fun h => ?_⟩
  cases hv : lastVal l k with
  | none => exact absurd rfl (lastVal_eq_none_iff.mp hv _ h)
  | some w =>
      have hw := mem_of_lastVal hv
      have : (k, w) = (k, v) := List.inj_on_of_nodup_map hl hw h rfl
      rw [(Prod.mk.inj this).2]

theorem lookup_foldl_insert (l : List (α × β)) (m : AList fun _ : α => β) (k : α) :
    (l.foldl (fun m p => m.insert p.1 p.2) m).lookup k = (lastVal l k).or (m.lookup k) := by
  induction l generalizing m with
  | nil => simp
  | cons p l ih =>
      rw [List.foldl_cons, ih, lastVal_cons, Option.or_assoc]
      congr 1
      by_cases h : p.1 = k
      · subst h; simp
      · have h' : k ≠ p.1 := fun e => h e.symm
        simp [h, h']

theorem forall_update {f : α → Option β} {a : α} {o : Option β} {R : α → β → Prop}
    (hself : ∀ b, o = some b → R a b) (hother : ∀ k b, k ≠ a → f k = some b → R k b) :
    ∀ k b, Function.update f a o k = some b → R k b :=
  (Function.forall_update_iff f fun k o => ∀ b, o = some b → R k b).mpr
    ⟨hself, fun k hk b => hother k b hk⟩

end Overlay
