import Mathlib.Logic.Function.Basic
import Mathlib.Tactic.Common

/-! # Programs in sections

A program that works on a shared state: it takes a lock for one section after the other, and which
one comes next depends on what it has found.  Between two sections others may change the state.
`exec` runs a program under such changes, where `others n` is done before section number `n`.

What a program returns depends on the states its sections find and on nothing else
(`exec_agree`). -/

/-- `next` is given the state as the section finds it. -/
inductive Sections (σ α : Type) where
  | done (a : α)
  | lock (change : σ → σ) (next : σ → Sections σ α)

namespace Sections

variable {σ α : Type}

/-- A run, from the number of sections so far and the state they have left. -/
def exec (others : ℕ → σ → σ) : Sections σ α → ℕ × σ → (ℕ × σ) × α
  | .done a, s => (s, a)
  | .lock change next, s =>
      exec others (next (others s.1 s.2)) (s.1 + 1, change (others s.1 s.2))

/-- The next section finds the same state, and those after it meet the same changes. -/
structure Agree (others others' : ℕ → σ → σ) (s s' : ℕ × σ) : Prop where
  now : others s.1 s.2 = others' s'.1 s'.2
  later : ∀ n, others (s.1 + 1 + n) = others' (s'.1 + 1 + n)

variable {others others' : ℕ → σ → σ} {s s' : ℕ × σ}

theorem Agree.refl (others : ℕ → σ → σ) (s : ℕ × σ) : Agree others others s s :=
  ⟨rfl, fun _ => rfl⟩

theorem Agree.next (h : Agree others others' s s') (d : σ) :
    Agree others others' (s.1 + 1, d) (s'.1 + 1, d) where
  now := congrFun (h.later 0) d
  later n := by
    have hn := h.later (n + 1)
    rwa [Nat.add_comm n 1, ← Nat.add_assoc, ← Nat.add_assoc] at hn

theorem exec_agree (p : Sections σ α) (h : Agree others others' s s') :
    (p.exec others s).2 = (p.exec others' s').2 ∧
      Agree others others' (p.exec others s).1 (p.exec others' s').1 := by
  induction p generalizing s s' with
  | done a => exact ⟨rfl, h⟩
  | lock change next ih =>
      rw [exec, exec, ← h.now]
      exact ih _ (h.next _)

end Sections
