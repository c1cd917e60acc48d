import Mathlib.Data.List.Perm.Basic
import Mathlib.Data.List.Sort
import Mathlib.Order.Basic

/-! # Priority queues

A priority queue is given by what its operations do to its content: `pop` takes an element with a
least key, and which of several is left open.  `takeDue` pops as long as the element on top is due.
Where what comes before a due element is due as well, it takes all that is due and leaves the rest
(`takeDue_spec`). -/

namespace Priority

variable {α κ : Type}

/-- A queue whose least elements are taken first. -/
structure Queue (α κ : Type) [LE κ] (key : α → κ) where
  Carrier : Type
  content : Carrier → List α
  empty : Carrier
  push : α → Carrier → Carrier
  pop : Carrier → Option (α × Carrier)
  content_empty : content empty = []
  content_push : ∀ a q, (content (push a q)).Perm (a :: content q)
  nil_of_pop : ∀ q, pop q = none → content q = []
  content_pop : ∀ q a q', pop q = some (a, q') → (content q).Perm (a :: content q')
  le_of_pop : ∀ q a q', pop q = some (a, q') → ∀ b ∈ content q', key a ≤ key b

section

variable [LinearOrder κ] (key : α → κ)

instance total_key : Std.Total fun a b : α => key a ≤ key b := ⟨fun a b => le_total (key a) (key b)⟩

instance isTrans_key : IsTrans α fun a b => key a ≤ key b := ⟨fun _ _ _ => le_trans⟩

/-- Queues as sorted lists. -/
def sortedQueue : Queue α κ key where
  Carrier := { l : List α // l.Pairwise fun a b => key a ≤ key b }
  content q := q.1
  empty := ⟨[], List.Pairwise.nil⟩
  push a q := ⟨q.1.orderedInsert (fun a b => key a ≤ key b) a, q.2.orderedInsert a q.1⟩
  pop q :=
    match q with
    | ⟨[], _⟩ => none
    | ⟨a :: l, h⟩ => some (a, ⟨l, (List.pairwise_cons.1 h).2⟩)
  content_empty := rfl
  content_push a q := List.perm_orderedInsert _ a q.1
  nil_of_pop q h := by
    match q, h with
    | ⟨[], _⟩, _ => rfl
  content_pop q a q' h := by
    match q, h with
    | ⟨b :: l, _⟩, h =>
        obtain ⟨rfl, rfl⟩ := Prod.mk.inj (Option.some.inj h)
        exact List.Perm.refl _
  le_of_pop q a q' h := by
    match q, h with
    | ⟨b :: l, hs⟩, h =>
        obtain ⟨rfl, rfl⟩ := Prod.mk.inj (Option.some.inj h)
        exact (List.pairwise_cons.1 hs).1

end

section

variable [LE κ] {key : α → κ} (Q : Queue α κ key) (due : α → Bool)

/-- Pops as long as the element on top is due, `n` times at most. -/
def takeDue : ℕ → Q.Carrier → List α × Q.Carrier
  | 0, q => ([], q)
  | n + 1, q =>
      match Q.pop q with
      | none => ([], q)
      | some (a, q') =>
          if due a then
            let r := takeDue n q'
            (a :: r.1, r.2)
          else ([], q)

variable {Q} {due}

/-- What is taken is due, what is left is not, and together they are what was there. -/
theorem takeDue_spec (hdue : ∀ a b, key a ≤ key b → due b = true → due a = true) {n : ℕ}
    {q : Q.Carrier} (hn : (Q.content q).length ≤ n) :
    (takeDue Q due n q).1.Perm ((Q.content q).filter due) ∧
      (Q.content (takeDue Q due n q).2).Perm ((Q.content q).filter fun a => !due a) := by
  induction n generalizing q with
  | zero =>
      have hnil : Q.content q = [] := List.length_eq_zero_iff.1 (Nat.le_zero.1 hn)
      simp [takeDue, hnil]
  | succ n ih =>
      rw [takeDue]
      cases hp : Q.pop q with
      | none => simp [Q.nil_of_pop q hp]
      | some r =>
          obtain ⟨a, q'⟩ := r
          have hperm := Q.content_pop q a q' hp
          have hlen := hperm.length_eq
          rw [List.length_cons] at hlen
          by_cases ha : due a = true
          · obtain ⟨htaken, hleft⟩ := ih (q := q') (by omega)
            simp only [ha, if_true]
            constructor
            · refine (htaken.cons a).trans ?_
              have hfilter := (hperm.filter due).symm
              rwa [List.filter_cons_of_pos ha] at hfilter
            · refine hleft.trans ?_
              have hfilter := (hperm.filter fun a => !due a).symm
              rwa [List.filter_cons_of_neg (by simp [ha])] at hfilter
          · -- nothing behind an element that is not due is due
            have hnone : ∀ b ∈ Q.content q, due b = false := by
              intro b hb
              rcases List.mem_cons.1 (hperm.mem_iff.1 hb) with rfl | hb
              · simpa using ha
              · by_contra hd
                exact ha (hdue a b (Q.le_of_pop q a q' hp b hb) (by simpa using hd))
            simp only [ha, Bool.false_eq_true, if_false]
            constructor
            · rw [List.filter_eq_nil_iff.2 fun b hb => by simp [hnone b hb]]
            · rw [List.filter_eq_self.2 fun b hb => by simp [hnone b hb]]

end

end Priority
