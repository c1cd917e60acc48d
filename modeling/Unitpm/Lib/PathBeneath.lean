import Mathlib.Data.Set.Basic

/-! # Rules on what lies beneath a place

An access control of the kind Landlock has.  A layer handles some of the rights; a request for one
of these needs a rule on a place above it, and a right that is not handled is not asked for.

A policy says what is allowed beneath which places, whatever is handled.  As more rights are handled
the tree beneath a place keeps what it was permitted exactly when the policy allows each new right
everywhere in it (`permits_grow_iff`). -/

namespace PathBeneath

variable {α ρ : Type*}

/-- The rights a layer handles, and its rules. -/
structure Layer (α ρ : Type*) where
  handled : Set ρ
  rules : List (α × Set ρ)

section Beneath

variable (Beneath : α → α → Prop)

/-- A rule on a place above allows the right. -/
def Grants (rules : List (α × Set ρ)) (place : α) (r : ρ) : Prop :=
  ∃ rule ∈ rules, Beneath place rule.1 ∧ r ∈ rule.2

/-- An operation asks for rights at places; those that are handled have to be granted. -/
def Layer.Permits (l : Layer α ρ) (op : List (α × ρ)) : Prop :=
  ∀ req ∈ op, req.2 ∈ l.handled → Grants Beneath l.rules req.1 req.2

/-- The layer for a policy that handles the rights `H`. -/
def restrict (policy : List (α × Set ρ)) (H : Set ρ) : Layer α ρ where
  handled := H
  rules := policy.map fun rule => (rule.1, rule.2 ∩ H)

variable {Beneath} {policy : List (α × Set ρ)} {H H' : Set ρ}

theorem grants_append {rules rules' : List (α × Set ρ)} {place : α} {r : ρ} :
    Grants Beneath (rules ++ rules') place r ↔
      Grants Beneath rules place r ∨ Grants Beneath rules' place r := by
  simp [Grants, or_and_right, exists_or]

theorem grants_restrict_iff {place : α} {r : ρ} :
    Grants Beneath (restrict policy H).rules place r ↔ Grants Beneath policy place r ∧ r ∈ H := by
  constructor
  · rintro ⟨_, hrule, hplace, hr⟩
    obtain ⟨rule, hmem, rfl⟩ := List.mem_map.mp hrule
    exact ⟨⟨rule, hmem, hplace, hr.1⟩, hr.2⟩
  · rintro ⟨⟨rule, hmem, hplace, hr⟩, hH⟩
    exact ⟨_, List.mem_map_of_mem hmem, hplace, hr, hH⟩

theorem permits_restrict_iff {op : List (α × ρ)} :
    (restrict policy H).Permits Beneath op ↔
      ∀ req ∈ op, req.2 ∈ H → Grants Beneath policy req.1 req.2 := by
  refine forall₂_congr fun req _ => forall_congr' fun hH => ?_
  rw [grants_restrict_iff]
  exact and_iff_left hH

/-- **More rights are handled.** Beneath a place everything stays permitted exactly when each new
right is allowed there. -/
theorem permits_grow_iff (top : α) :
    (∀ op : List (α × ρ), (∀ req ∈ op, Beneath req.1 top) →
      (restrict policy H).Permits Beneath op → (restrict policy H').Permits Beneath op) ↔
    ∀ place, Beneath place top → ∀ r ∈ H', r ∉ H → Grants Beneath policy place r := by
  simp only [permits_restrict_iff]
  constructor
  · intro h place hplace r hr hnew
    -- the operation that asks for the new right only
    refine h [(place, r)] (by simpa using hplace) ?_ (place, r) (by simp) hr
    intro req hreq hold
    obtain rfl := List.mem_singleton.mp hreq
    exact absurd hold hnew
  · intro h op hop hold req hreq hr
    by_cases hrH : req.2 ∈ H
    · exact hold req hreq hrH
    · exact h req.1 (hop req hreq) req.2 hr hrH

end Beneath

end PathBeneath
