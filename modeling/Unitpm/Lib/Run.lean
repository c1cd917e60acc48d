import Mathlib.Data.List.Basic
import Mathlib.Tactic.Common

/-! # Guarded runs

A deterministic machine `step : σ → α → σ` driven by a list of inputs, and the runs in which
every input meets a condition in the state it is taken in (`Along`).  `Along.invariant` is the
induction rule: what a permitted step preserves holds after every permitted run.
`forall_prefix_iff_along` is the exact form: what a step keeps if and only if it is permitted holds
all along a run if and only if the whole run is permitted.

`outputs` are the answers of a machine whose steps also return something.

`untilError` is the loop over a list whose body may fail, and then leaves the loop with the state
it has reached; `untilError_invariant` is its rule. -/

namespace Run

variable {σ α : Type*} {step : σ → α → σ} {ok ok' : σ → α → Prop}

/-- Every input of the list meets `ok` in the state it is taken in. -/
def Along (step : σ → α → σ) (ok : σ → α → Prop) : σ → List α → Prop
  | _, [] => True
  | s, a :: l => ok s a ∧ Along step ok (step s a) l

instance [∀ s a, Decidable (ok s a)] (s : σ) : (l : List α) → Decidable (Along step ok s l)
  | [] => isTrue trivial
  | a :: l =>
      haveI : Decidable (Along step ok (step s a) l) := instDecidableAlong (step s a) l
      inferInstanceAs (Decidable (_ ∧ _))

theorem along_of_forall (ok : σ → α → Prop) {s : σ} {l : List α} (hl : ∀ a ∈ l, ∀ s, ok s a) :
    Along step ok s l := by
  induction l generalizing s with
  | nil => trivial
  | cons a l ih => exact ⟨hl a (by simp) s, ih fun b hb => hl b (by simp [hb])⟩

theorem Along.mono (h : ∀ s a, ok s a → ok' s a) {s : σ} {l : List α} (hl : Along step ok s l) :
    Along step ok' s l := by
  induction l generalizing s with
  | nil => trivial
  | cons a l ih => exact ⟨h s a hl.1, ih hl.2⟩

theorem along_append (s : σ) (l m : List α) :
    Along step ok s (l ++ m) ↔ Along step ok s l ∧ Along step ok (l.foldl step s) m := by
  induction l generalizing s with
  | nil => simp [Along]
  | cons a l ih => rw [List.cons_append, Along, Along, List.foldl_cons, ih, and_assoc]

theorem Along.invariant (Inv : σ → Prop) (hstep : ∀ s a, Inv s → ok s a → Inv (step s a)) {s : σ}
    {l : List α} (hs : Inv s) (hl : Along step ok s l) : Inv (l.foldl step s) := by
  induction l generalizing s with
  | nil => exact hs
  | cons a l ih => exact ih (hstep s a hs hl.1) hl.2

theorem invariant (Inv : σ → Prop) (hstep : ∀ s a, Inv s → Inv (step s a)) {s : σ} (l : List α)
    (hs : Inv s) : Inv (l.foldl step s) := by
  induction l generalizing s with
  | nil => exact hs
  | cons a l ih => exact ih (hstep s a hs)

/-- What a step keeps exactly if its input is permitted holds in every state of a run exactly if
every input of the run is; this among the runs whose inputs meet `req`. -/
theorem Along.forall_prefix_iff {req : σ → α → Prop} (Inv Good : σ → Prop)
    (hinv : ∀ s a, Inv s → req s a → Inv (step s a))
    (hgood : ∀ s a, Inv s → req s a → Good s → (Good (step s a) ↔ ok s a)) {s : σ} (hs : Inv s)
    (hg : Good s) {l : List α} (hl : Along step req s l) :
    (∀ m, m <+: l → Good (m.foldl step s)) ↔ Along step ok s l := by
  induction l generalizing s with
  | nil =>
      refine ⟨fun _ => trivial, fun _ m hm => ?_⟩
      rw [List.prefix_nil.mp hm]
      exact hg
  | cons a l ih =>
      obtain ⟨hreq, hl⟩ := hl
      have hs' := hinv s a hs hreq
      have hstep := hgood s a hs hreq hg
      constructor
      · intro hall
        have h1 : Good (step s a) := hall [a] ⟨l, rfl⟩
        refine ⟨hstep.mp h1, (ih hs' h1 hl).mp fun m hm => ?_⟩
        exact hall (a :: m) (List.cons_prefix_cons.mpr ⟨rfl, hm⟩)
      · rintro ⟨hok, hrest⟩ m hm
        rcases List.prefix_cons_iff.mp hm with rfl | ⟨t, rfl, ht⟩
        · exact hg
        · exact (ih hs' (hstep.mpr hok) hl).mpr hrest t ht

theorem forall_prefix_iff_along (Inv Good : σ → Prop) (hinv : ∀ s a, Inv s → Inv (step s a))
    (hgood : ∀ s a, Inv s → Good s → (Good (step s a) ↔ ok s a)) {s : σ} (hs : Inv s)
    (hg : Good s) (l : List α) :
    (∀ m, m <+: l → Good (m.foldl step s)) ↔ Along step ok s l :=
  Along.forall_prefix_iff Inv Good (fun s a hs _ => hinv s a hs) (fun s a hs _ => hgood s a hs) hs
    hg (along_of_forall (fun _ _ => True) fun _ _ _ => trivial)

/-! ### Machines with answers -/

variable {β : Type*}

/-- The answers to a list of inputs, in order. -/
def outputs (f : σ → α → σ × β) : σ → List α → List β
  | _, [] => []
  | s, a :: l => (f s a).2 :: outputs f (f s a).1 l

/-- The state after a list of inputs. -/
def final (f : σ → α → σ × β) (s : σ) (l : List α) : σ := l.foldl (fun s a => (f s a).1) s

theorem final_append (f : σ → α → σ × β) (s : σ) (l m : List α) :
    final f s (l ++ m) = final f (final f s l) m := List.foldl_append

theorem outputs_append (f : σ → α → σ × β) (s : σ) (l m : List α) :
    outputs f s (l ++ m) = outputs f s l ++ outputs f (final f s l) m := by
  induction l generalizing s with
  | nil => rfl
  | cons a l ih =>
      rw [List.cons_append, outputs, outputs, ih, List.cons_append]
      rfl

/-! ### Loops that stop at the first error -/

variable {ε : Type*}

/-- Take the inputs in turn until one fails. -/
def untilError (f : σ → α → σ × Except ε Unit) : σ → List α → σ × Except ε Unit
  | s, [] => (s, .ok ())
  | s, a :: l =>
      match f s a with
      | (s, .error e) => (s, .error e)
      | (s, .ok _) => untilError f s l

/-- What a permitted step preserves holds at the end of the loop, provided that no step withdraws
the permission of a later one. -/
theorem untilError_invariant {f : σ → α → σ × Except ε Unit} (Inv : σ → Prop)
    (ok : σ → α → Prop) (R : α → α → Prop) (hstep : ∀ s a, Inv s → ok s a → Inv (f s a).1)
    (hok : ∀ s a b, R a b → ok s b → ok (f s a).1 b) {l : List α} (hl : l.Pairwise R) {s : σ}
    (hs : Inv s) (hall : ∀ a ∈ l, ok s a) : Inv (untilError f s l).1 := by
  induction l generalizing s with
  | nil => exact hs
  | cons a l ih =>
      obtain ⟨hR, hl⟩ := List.pairwise_cons.mp hl
      have h1 := hstep s a hs (hall a (by simp))
      have h2 : ∀ b ∈ l, ok (f s a).1 b := fun b hb => hok s a b (hR b hb) (hall b (by simp [hb]))
      unfold untilError
      cases hr : f s a with
      | mk t r =>
          rw [hr] at h1 h2
          cases r with
          | error e => exact h1
          | ok _ => exact ih hl h1 h2

theorem untilError_map {β : Type*} (f : σ → β → σ × Except ε Unit) (g : α → β) (s : σ)
    (l : List α) : untilError f s (l.map g) = untilError (fun s a => f s (g a)) s l := by
  induction l generalizing s with
  | nil => rfl
  | cons a l ih =>
      simp only [List.map_cons, untilError]
      rcases f s (g a) with ⟨t, e | _⟩
      · rfl
      · exact ih t

/-- The induction rule for loops that come to their end: every step on the way succeeded. -/
theorem untilError_ok {f : σ → α → σ × Except ε Unit} (R : σ → List α → σ → Prop)
    (hnil : ∀ s, R s [] s)
    (hcons : ∀ s a l t u, f s a = (t, .ok ()) → R t l u → R s (a :: l) u) {s u : σ} {l : List α}
    (hl : untilError f s l = (u, .ok ())) : R s l u := by
  induction l generalizing s with
  | nil =>
      obtain rfl := congrArg Prod.fst hl
      exact hnil s
  | cons a l ih =>
      unfold untilError at hl
      rcases hf : f s a with ⟨t, e | _⟩
      · rw [hf] at hl
        cases congrArg Prod.snd hl
      · rw [hf] at hl
        exact hcons s a l t u hf (ih hl)

theorem untilError_error {f : σ → α → σ × Except ε Unit} {s u : σ} {l : List α} {e : ε}
    (hl : untilError f s l = (u, .error e)) :
    ∃ l₁ a l₂ t, l = l₁ ++ a :: l₂ ∧ untilError f s l₁ = (t, .ok ()) ∧ f t a = (u, .error e) := by
  induction l generalizing s with
  | nil => cases congrArg Prod.snd hl
  | cons a l ih =>
      unfold untilError at hl
      rcases hf : f s a with ⟨t, e' | _⟩
      · rw [hf] at hl
        exact ⟨[], a, l, s, rfl, rfl, hf.trans hl⟩
      · rw [hf] at hl
        obtain ⟨l₁, b, l₂, v, rfl, h1, h2⟩ := ih hl
        refine ⟨a :: l₁, b, l₂, v, rfl, ?_, h2⟩
        rw [untilError, hf]
        exact h1

end Run
