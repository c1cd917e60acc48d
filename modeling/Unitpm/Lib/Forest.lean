import Mathlib.Data.Fintype.Card
import Mathlib.Data.List.Nodup
import Mathlib.Data.Set.Finite.Basic
import Mathlib.Logic.Relation

/-! # Forests and work lists

A map from a node to its children, and the loop that takes a node from a work list, emits something
for it and puts its children on the list.  Which end they are put on is the discipline of the list,
a stack or a queue; here it is a function `place`, of which most results need only that it loses
nothing and adds nothing.

The loop ends when the part of the map below the list is a forest (`drain_terminates`), and then
what it emits is, up to the order, what it emits for the nodes of that forest in preorder
(`drain_perm`).  Where every node has one parent, the part below a node is a forest if the node is
not below itself (`OneParent.acc_of_acyclic`), and then no node is in it twice
(`Forest.nodup_preorder`).  The order of a queue is the preorder only in a forest with no two
branches side by side (`drain_queue_eq_preorder_iff`). -/

namespace Worklist

open Relation

variable {α β : Type}

/-- A forest: its first tree, as a root and the forest below it, and the other trees. -/
inductive Forest (α : Type) where
  | nil
  | node (a : α) (kids rest : Forest α)

/-- `a` is the parent of `b`. -/
def IsParent (children : α → List α) (a b : α) : Prop := b ∈ children a

/-- Every node has one parent, that lists it once. -/
structure OneParent (children : α → List α) : Prop where
  once : ∀ a, (children a).Nodup
  unique : ∀ a b c, IsParent children a c → IsParent children b c → a = b

theorem comparable_of_oneParent {children : α → List α} (hone : OneParent children) {a b x : α}
    (ha : ReflTransGen (IsParent children) a x) (hb : ReflTransGen (IsParent children) b x) :
    ReflTransGen (IsParent children) a b ∨ ReflTransGen (IsParent children) b a := by
  induction ha with
  | refl => exact .inr hb
  | tail hac hcx ih =>
      rcases hb.cases_tail with rfl | ⟨d, hbd, hdx⟩
      · exact .inl (hac.tail hcx)
      · cases hone.unique _ _ _ hcx hdx
        exact ih hbd

namespace Forest

/-- The roots, from the first tree to the last. -/
def roots : Forest α → List α
  | nil => []
  | node a _ rest => a :: rest.roots

/-- The nodes, each followed by what is below it. -/
def preorder : Forest α → List α
  | nil => []
  | node a kids rest => a :: (kids.preorder ++ rest.preorder)

/-- One forest before another. -/
def append : Forest α → Forest α → Forest α
  | nil, g => g
  | node a kids rest, g => node a kids (rest.append g)

/-- Below every node are its children, with what is below them. -/
def Unfolds (children : α → List α) : Forest α → Prop
  | nil => True
  | node a kids rest => kids.roots = children a ∧ kids.Unfolds children ∧ rest.Unfolds children

/-- No two branches side by side: a tree that is not the last has one node. -/
def Slim : Forest α → Prop
  | nil => True
  | node _ kids rest => (kids = nil ∨ rest = nil) ∧ kids.Slim ∧ rest.Slim

/-- The forest with the depth of each node, where the roots are at depth `d`. -/
def depths (d : ℤ) : Forest α → Forest (α × ℤ)
  | nil => nil
  | node a kids rest => node (a, d) (kids.depths (d + 1)) (rest.depths d)

@[simp] theorem roots_nil : (nil : Forest α).roots = [] := rfl

@[simp] theorem roots_node (a : α) (kids rest : Forest α) :
    (node a kids rest).roots = a :: rest.roots := rfl

@[simp] theorem preorder_nil : (nil : Forest α).preorder = [] := rfl

@[simp] theorem preorder_node (a : α) (kids rest : Forest α) :
    (node a kids rest).preorder = a :: (kids.preorder ++ rest.preorder) := rfl

@[simp] theorem nil_append (g : Forest α) : nil.append g = g := rfl

@[simp] theorem node_append (a : α) (kids rest g : Forest α) :
    (node a kids rest).append g = node a kids (rest.append g) := rfl

@[simp] theorem append_nil (f : Forest α) : f.append nil = f := by
  induction f with
  | nil => rfl
  | node a kids rest _ ih => rw [node_append, ih]

@[simp] theorem roots_append (f g : Forest α) : (f.append g).roots = f.roots ++ g.roots := by
  induction f with
  | nil => rfl
  | node a kids rest _ ih => rw [node_append, roots_node, ih, roots_node, List.cons_append]

@[simp] theorem preorder_append (f g : Forest α) :
    (f.append g).preorder = f.preorder ++ g.preorder := by
  induction f with
  | nil => rfl
  | node a kids rest _ ih =>
      rw [node_append, preorder_node, ih, preorder_node, List.cons_append, List.append_assoc]

theorem roots_eq_nil_iff {f : Forest α} : f.roots = [] ↔ f = nil := by
  cases f <;> simp

variable {children : α → List α}

theorem Unfolds.append {f g : Forest α} (hf : f.Unfolds children) (hg : g.Unfolds children) :
    (f.append g).Unfolds children := by
  induction f with
  | nil => exact hg
  | node a kids rest _ ih => exact ⟨hf.1, hf.2.1, ih hf.2.2⟩

/-- The trees can be put in any order. -/
theorem exists_reorder {ws : List α} {f : Forest α} (hf : f.Unfolds children)
    (h : f.roots.Perm ws) :
    ∃ g : Forest α, g.roots = ws ∧ g.Unfolds children ∧ g.preorder.Perm f.preorder := by
  generalize hl : f.roots = l at h
  induction h generalizing f with
  | nil =>
      cases roots_eq_nil_iff.mp hl
      exact ⟨nil, rfl, trivial, .refl _⟩
  | cons x _ ih =>
      obtain - | ⟨a, kids, rest⟩ := f
      · cases hl
      · obtain ⟨rfl, hrest⟩ := List.cons.inj hl
        obtain ⟨g, hg, hgu, hgp⟩ := ih hf.2.2 hrest
        refine ⟨node a kids g, ?_, ⟨hf.1, hf.2.1, hgu⟩, ?_⟩
        · rw [roots_node, hg]
        · exact (hgp.append_left kids.preorder).cons a
  | swap x y l =>
      obtain - | ⟨a, kids, - | ⟨b, kids', rest⟩⟩ := f
      · cases hl
      · cases hl
      · obtain ⟨rfl, h'⟩ := List.cons.inj hl
        obtain ⟨rfl, rfl⟩ := List.cons.inj h'
        obtain ⟨hkids, hkidsu, hkids', hkidsu', hrest⟩ := hf
        refine ⟨node b kids' (node a kids rest), rfl,
          ⟨hkids', hkidsu', hkids, hkidsu, hrest⟩, ?_⟩
        simp only [preorder_node]
        -- both orders list the two trees and then the rest
        have h1 : (b :: (kids'.preorder ++ a :: (kids.preorder ++ rest.preorder))).Perm
            ((b :: kids'.preorder) ++ ((a :: kids.preorder) ++ rest.preorder)) := by simp
        have h2 : (a :: (kids.preorder ++ b :: (kids'.preorder ++ rest.preorder))).Perm
            ((a :: kids.preorder) ++ ((b :: kids'.preorder) ++ rest.preorder)) := by simp
        exact h1.trans (List.perm_append_comm_assoc _ _ _ |>.trans h2.symm)
  | trans _ _ ih₁ ih₂ =>
      obtain ⟨g, hg, hgu, hgp⟩ := ih₁ hf hl
      obtain ⟨k, hk, hku, hkp⟩ := ih₂ hgu hg
      exact ⟨k, hk, hku, hkp.trans hgp⟩

theorem mem_preorder_iff {f : Forest α} (hf : f.Unfolds children) {x : α} :
    x ∈ f.preorder ↔ ∃ r ∈ f.roots, ReflTransGen (IsParent children) r x := by
  induction f with
  | nil => simp
  | node a kids rest ihk ihr =>
      obtain ⟨hroots, hkids, hrest⟩ := hf
      rw [preorder_node, List.mem_cons, List.mem_append, ihk hkids, ihr hrest, hroots, roots_node]
      constructor
      · rintro (rfl | ⟨c, hc, hcx⟩ | ⟨r, hr, hrx⟩)
        · exact ⟨x, List.mem_cons_self, .refl⟩
        · exact ⟨a, List.mem_cons_self, .head hc hcx⟩
        · exact ⟨r, List.mem_cons_of_mem _ hr, hrx⟩
      · rintro ⟨r, hr, hrx⟩
        rcases List.mem_cons.mp hr with rfl | hr
        · rcases hrx.cases_head with rfl | ⟨c, hc, hcx⟩
          · exact .inl rfl
          · exact .inr (.inl ⟨c, hc, hcx⟩)
        · exact .inr (.inr ⟨r, hr, hrx⟩)

/-- The roots, and the children of all nodes, are the nodes. -/
theorem roots_append_children_perm {f : Forest α} (hf : f.Unfolds children) :
    (f.roots ++ f.preorder.flatMap children).Perm f.preorder := by
  induction f with
  | nil => simp
  | node a kids rest ihk ihr =>
      obtain ⟨hroots, hkids, hrest⟩ := hf
      have hk := ihk hkids
      have hr := ihr hrest
      rw [hroots] at hk
      simp only [roots_node, preorder_node, List.flatMap_cons, List.flatMap_append,
        List.cons_append]
      have hmove : (rest.roots ++ (children a ++
          (kids.preorder.flatMap children ++ rest.preorder.flatMap children))).Perm
          ((children a ++ kids.preorder.flatMap children) ++
            (rest.roots ++ rest.preorder.flatMap children)) := by
        rw [← List.append_assoc (children a)]
        exact List.perm_append_comm_assoc _ _ _
      exact (hmove.trans (hk.append hr)).cons a

/-- Nothing is in the forest twice, if nothing is listed twice and no root is below a root. -/
theorem nodup_preorder (hone : OneParent children) {f : Forest α} (hf : f.Unfolds children)
    (hroots : f.roots.Nodup)
    (hbelow : ∀ a ∈ f.roots, ∀ b ∈ f.roots, ¬ TransGen (IsParent children) a b) :
    f.preorder.Nodup := by
  induction f with
  | nil => exact List.nodup_nil
  | node a kids rest ihk ihr =>
      obtain ⟨hkr, hkids, hrest⟩ := hf
      rw [roots_node] at hroots hbelow
      have ha : ¬ TransGen (IsParent children) a a :=
        hbelow a List.mem_cons_self a List.mem_cons_self
      have hkn : kids.preorder.Nodup := by
        apply ihk hkids
        · rw [hkr]
          exact hone.once a
        · -- a child below a child would put the parent below itself
          intro c hc d hd hcd
          rw [hkr] at hc hd
          obtain ⟨b, hcb, hbd⟩ := TransGen.tail'_iff.mp hcd
          cases hone.unique a b d hd hbd
          exact ha (TransGen.head' hc hcb)
      have hrn : rest.preorder.Nodup :=
        ihr hrest hroots.of_cons fun b hb c hc =>
          hbelow b (List.mem_cons_of_mem a hb) c (List.mem_cons_of_mem a hc)
      have hdisj : ∀ x, ReflTransGen (IsParent children) a x → x ∉ rest.preorder := by
        intro x hax hx
        obtain ⟨r, hr, hrx⟩ := (mem_preorder_iff hrest).mp hx
        have hne : r ≠ a := fun h => (List.nodup_cons.mp hroots).1 (h ▸ hr)
        rcases comparable_of_oneParent hone hax hrx with h | h
        · rcases reflTransGen_iff_eq_or_transGen.mp h with h | h
          · exact hne h
          · exact hbelow a List.mem_cons_self r (List.mem_cons_of_mem a hr) h
        · rcases reflTransGen_iff_eq_or_transGen.mp h with h | h
          · exact hne h.symm
          · exact hbelow r (List.mem_cons_of_mem a hr) a List.mem_cons_self h
      have hak : ∀ x ∈ kids.preorder, TransGen (IsParent children) a x := by
        intro x hx
        obtain ⟨c, hc, hcx⟩ := (mem_preorder_iff hkids).mp hx
        rw [hkr] at hc
        exact TransGen.head' hc hcx
      rw [preorder_node, List.nodup_cons, List.mem_append, List.nodup_append]
      refine ⟨?_, hkn, hrn, ?_⟩
      · rintro (hx | hx)
        · exact ha (hak a hx)
        · exact hdisj a .refl hx
      · rintro x hx y hy rfl
        exact hdisj x (hak x hx).to_reflTransGen hy

/-- In a slim forest only the last of the children of a node has children. -/
theorem slim_iff {f : Forest α} (hf : f.Unfolds children) :
    f.Slim ↔ (∀ c ∈ f.roots.dropLast, children c = []) ∧
      ∀ p ∈ f.preorder, ∀ c ∈ (children p).dropLast, children c = [] := by
  induction f with
  | nil => simp [Slim]
  | node a kids rest ihk ihr =>
      obtain ⟨hroots, hkids, hrest⟩ := hf
      have hhere : (∀ c ∈ (a :: rest.roots).dropLast, children c = []) ↔
          (kids = nil ∨ rest = nil) ∧ ∀ c ∈ rest.roots.dropLast, children c = [] := by
        by_cases hr : rest = nil
        · subst hr
          simp
        · have hne : rest.roots ≠ [] := fun h => hr (roots_eq_nil_iff.mp h)
          rw [List.dropLast_cons_of_ne_nil hne, List.forall_mem_cons, ← hroots, roots_eq_nil_iff]
          simp [hr]
      rw [Slim, ihk hkids, ihr hrest, roots_node, preorder_node, hhere, hroots,
        List.forall_mem_cons, List.forall_mem_append]
      tauto

section depths
variable (d : ℤ) (f : Forest α)

theorem roots_depths : (f.depths d).roots = f.roots.map fun a => (a, d) := by
  induction f with
  | nil => rfl
  | node a kids rest _ ih => rw [depths, roots_node, ih, roots_node, List.map_cons]

theorem map_fst_preorder_depths : (f.depths d).preorder.map Prod.fst = f.preorder := by
  induction f generalizing d with
  | nil => rfl
  | node a kids rest ihk ihr =>
      rw [depths, preorder_node, List.map_cons, List.map_append, ihk, ihr, preorder_node]

theorem slim_depths : (f.depths d).Slim ↔ f.Slim := by
  have hnil : ∀ (e : ℤ) (g : Forest α), g.depths e = nil ↔ g = nil := by
    intro e g
    cases g <;> simp [depths]
  induction f generalizing d with
  | nil => exact Iff.rfl
  | node a kids rest ihk ihr => simp only [depths, Slim, ihk, ihr, hnil]

theorem Unfolds.depths {f : Forest α} (hf : f.Unfolds children) :
    (f.depths d).Unfolds fun p => (children p.1).map fun c => (c, p.2 + 1) := by
  induction f generalizing d with
  | nil => trivial
  | node a kids rest ihk ihr =>
      obtain ⟨hroots, hkids, hrest⟩ := hf
      refine ⟨?_, ihk (d + 1) hkids, ihr d hrest⟩
      rw [roots_depths, hroots]

end depths

end Forest

/-! ### Where the map is a forest -/

section
variable {children : α → List α}

theorem exists_unfolds_of_forall {ws : List α}
    (h : ∀ w ∈ ws, ∃ kids : Forest α, kids.roots = children w ∧ kids.Unfolds children) :
    ∃ f : Forest α, f.roots = ws ∧ f.Unfolds children := by
  induction ws with
  | nil => exact ⟨.nil, rfl, trivial⟩
  | cons w ws ih =>
      obtain ⟨kids, hk, hku⟩ := h w List.mem_cons_self
      obtain ⟨rest, hr, hru⟩ := ih fun x hx => h x (List.mem_cons_of_mem w hx)
      refine ⟨.node w kids rest, ?_, hk, hku, hru⟩
      rw [Forest.roots_node, hr]

theorem exists_unfolds_of_acc {ws : List α}
    (h : ∀ w ∈ ws, Acc (flip (IsParent children)) w) :
    ∃ f : Forest α, f.roots = ws ∧ f.Unfolds children := by
  apply exists_unfolds_of_forall
  intro w hw
  have hacc := h w hw
  clear h hw
  induction hacc with
  | intro w _ ih => exact exists_unfolds_of_forall fun c hc => ih c hc

namespace OneParent

theorem cycle_of_below (hone : OneParent children) {a x : α}
    (hax : ReflTransGen (IsParent children) a x) (hx : TransGen (IsParent children) x x) :
    TransGen (IsParent children) a a := by
  induction hax with
  | refl => exact hx
  | tail _ hyx ih =>
      obtain ⟨z, hxz, hzx⟩ := TransGen.tail'_iff.mp hx
      cases hone.unique _ _ _ hyx hzx
      exact ih (TransGen.head' hyx hxz)

/-- Where finitely many nodes have a parent, and each has one, the descent from a node that is not
below itself comes to an end. -/
theorem acc_of_acyclic (hone : OneParent children)
    (hfin : {x | ∃ a, IsParent children a x}.Finite) {a : α}
    (ha : ¬ TransGen (IsParent children) a a) : Acc (flip (IsParent children)) a := by
  -- what is below `a` is finite, and nothing of it is below itself
  let below : Set α := {x | TransGen (IsParent children) a x}
  have hsub : below ⊆ {x | ∃ a, IsParent children a x} := by
    intro x hx
    obtain ⟨z, -, hz⟩ := TransGen.tail'_iff.mp hx
    exact ⟨z, hz⟩
  have : Finite below := hfin.subset hsub
  let under : below → below → Prop := fun x y => TransGen (IsParent children) y.1 x.1
  have : IsTrans below under := ⟨fun x y z hxy hyz => hyz.trans hxy⟩
  have : Std.Irrefl under :=
    ⟨fun x hx => ha (hone.cycle_of_below x.2.to_reflTransGen hx)⟩
  have hwf : WellFounded under := Finite.wellFounded_of_trans_of_irrefl under
  have hacc : ∀ x : below, Acc (flip (IsParent children)) x.1 := by
    intro x
    induction hwf.apply x with
    | intro x _ ih =>
        exact Acc.intro _ fun y hy => ih ⟨y, x.2.tail hy⟩ (.single hy)
  exact Acc.intro a fun y hy => hacc ⟨y, .single hy⟩

theorem acc_iff_acyclic (hone : OneParent children)
    (hfin : {x | ∃ a, IsParent children a x}.Finite) {a : α} :
    Acc (flip (IsParent children)) a ↔ ¬ TransGen (IsParent children) a a := by
  refine ⟨fun h => ?_, hone.acc_of_acyclic hfin⟩
  induction h with
  | intro a _ ih =>
      -- the next node of the cycle is below itself too
      intro hcycle
      obtain ⟨c, hac, hca⟩ := TransGen.head'_iff.mp hcycle
      exact ih c hac (TransGen.tail' hca hac)

end OneParent

end

/-! ### The loop -/

variable {γ : Type}

/-- Take a node from the list, emit what its step emits, and place its children; `fuel` bounds the
rounds, and a step may depend on the round it is made in. -/
def drain (place : List β → List β → List β) (step : ℕ → β → List γ × List β) :
    ℕ → ℕ → List β → List γ → Option (List γ)
  | _, _, [], out => some out
  | 0, _, _ :: _, _ => none
  | fuel + 1, round, w :: ws, out =>
      drain place step fuel (round + 1) (place (step round w).2 ws) (out ++ (step round w).1)

section
variable {place : List β → List β → List β} {step : ℕ → β → List γ × List β}
  {children : β → List β} {out r : List γ} {fuel round : ℕ} {ws : List β}

theorem drain_cons (place : List β → List β → List β) (step : ℕ → β → List γ × List β)
    (fuel round : ℕ) (w : β) (ws : List β) (out : List γ) :
    drain place step (fuel + 1) round (w :: ws) out =
      drain place step fuel (round + 1) (place (step round w).2 ws) (out ++ (step round w).1) := rfl

theorem drain_of_le {fuel' : ℕ} (hle : fuel ≤ fuel')
    (h : drain place step fuel round ws out = some r) :
    drain place step fuel' round ws out = some r := by
  induction fuel generalizing fuel' round ws out with
  | zero =>
      cases ws with
      | nil => cases fuel' <;> exact h
      | cons w ws => cases h
  | succ fuel ih =>
      obtain ⟨fuel', rfl⟩ : ∃ n, fuel' = n + 1 := ⟨fuel' - 1, by omega⟩
      cases ws with
      | nil => exact h
      | cons w ws =>
          rw [drain_cons] at h ⊢
          exact ih (by omega) h

theorem prefix_drain (h : drain place step fuel round ws out = some r) : out <+: r := by
  induction fuel generalizing round ws out with
  | zero =>
      cases ws with
      | nil => cases h; exact List.prefix_refl _
      | cons w ws => cases h
  | succ fuel ih =>
      cases ws with
      | nil => cases h; exact List.prefix_refl _
      | cons w ws => exact (List.prefix_append _ _).trans (ih h)

theorem prefix_drain_cons {w : β} (h : drain place step fuel round (w :: ws) out = some r) :
    out ++ (step round w).1 <+: r := by
  cases fuel with
  | zero => cases h
  | succ fuel => exact prefix_drain h

/-- What is emitted can be read through a function. -/
theorem drain_map {δ : Type} (p : γ → δ) (h : drain place step fuel round ws out = some r) :
    drain place (fun k w => ((step k w).1.map p, (step k w).2)) fuel round ws (out.map p) =
      some (r.map p) := by
  induction fuel generalizing round ws out with
  | zero =>
      cases ws with
      | nil => cases h; rfl
      | cons w ws => cases h
  | succ fuel ih =>
      cases ws with
      | nil => cases h; rfl
      | cons w ws =>
          have hnext := ih h
          rw [List.map_append] at hnext
          exact hnext

/-- The loop ends over a forest, also when some steps leave the children of their node out. -/
theorem drain_terminates (hplace : ∀ new ws, (place new ws).Perm (new ++ ws))
    (hstep : ∀ k w, (step k w).2 = children w ∨ (step k w).2 = []) {f : Forest β}
    (hf : f.Unfolds children) (hroots : f.roots = ws) (round : ℕ) (out : List γ) :
    ∃ fuel r, drain place step fuel round ws out = some r := by
  -- by induction on what is left below the list
  induction hn : f.preorder.length using Nat.strong_induction_on generalizing f ws round out with
  | _ n ih =>
      subst hroots
      cases f with
      | nil => exact ⟨0, out, rfl⟩
      | node w kids rest =>
          obtain ⟨hkr, hkids, hrest⟩ := hf
          have hnext : ∃ g : Forest β, g.Unfolds children ∧ g.preorder.length < n ∧
              g.roots = place (step round w).2 rest.roots := by
            rcases hstep round w with h | h
            · have hperm : (kids.append rest).roots.Perm (place (step round w).2 rest.roots) := by
                rw [Forest.roots_append, hkr, h]
                exact (hplace _ _).symm
              obtain ⟨g, hg, hgu, hgp⟩ := Forest.exists_reorder (hkids.append hrest) hperm
              refine ⟨g, hgu, ?_, hg⟩
              rw [hgp.length_eq, Forest.preorder_append, ← hn, Forest.preorder_node,
                List.length_cons]
              omega
            · have hperm : rest.roots.Perm (place (step round w).2 rest.roots) := by
                rw [h]
                exact (hplace [] rest.roots).symm
              obtain ⟨g, hg, hgu, hgp⟩ := Forest.exists_reorder hrest hperm
              refine ⟨g, hgu, ?_, hg⟩
              rw [hgp.length_eq, ← hn, Forest.preorder_node, List.length_cons, List.length_append]
              omega
          obtain ⟨g, hgu, hlt, hg⟩ := hnext
          obtain ⟨fuel, r, hr⟩ := ih _ hlt hgu hg (round + 1) (out ++ (step round w).1) rfl
          exact ⟨fuel + 1, r, hr⟩

/-- A loop that takes all children up and ends has no endless descent below its list. -/
theorem acc_of_drain (hplace : ∀ new ws, (place new ws).Perm (new ++ ws))
    (hstep : ∀ k w, (step k w).2 = children w)
    (h : drain place step fuel round ws out = some r) :
    ∀ w ∈ ws, Acc (flip (IsParent children)) w := by
  induction fuel generalizing round ws out with
  | zero =>
      cases ws with
      | nil => exact fun w hw => absurd hw List.not_mem_nil
      | cons w ws => cases h
  | succ fuel ih =>
      cases ws with
      | nil => exact fun w hw => absurd hw List.not_mem_nil
      | cons w ws =>
          have hall : ∀ x ∈ children w ++ ws, Acc (flip (IsParent children)) x := by
            intro x hx
            apply ih h
            rw [(hplace _ _).mem_iff, hstep]
            exact hx
          intro x hx
          rcases List.mem_cons.mp hx with rfl | hx
          · exact Acc.intro x fun y hy => hall y (List.mem_append_left _ hy)
          · exact hall x (List.mem_append_right _ hx)

/-- A loop that takes all children up emits, up to the order, what it emits for the nodes of the
forest. -/
theorem drain_perm (hplace : ∀ new ws, (place new ws).Perm (new ++ ws)) {emit : β → List γ}
    {f : Forest β} (hf : f.Unfolds children)
    (hstep : ∀ k, ∀ w ∈ f.preorder, step k w = (emit w, children w))
    (hroots : f.roots = ws) (h : drain place step fuel round ws out = some r) :
    r.Perm (out ++ f.preorder.flatMap emit) := by
  subst hroots
  induction fuel generalizing f round out with
  | zero =>
      cases f with
      | nil => cases h; simp
      | node w kids rest => cases h
  | succ fuel ih =>
      cases f with
      | nil => cases h; simp
      | node w kids rest =>
          obtain ⟨hkr, hkids, hrest⟩ := hf
          rw [Forest.roots_node, drain_cons, hstep _ w List.mem_cons_self] at h
          have hperm : (kids.append rest).roots.Perm (place (children w) rest.roots) := by
            rw [Forest.roots_append, hkr]
            exact (hplace _ _).symm
          obtain ⟨g, hg, hgu, hgp⟩ := Forest.exists_reorder (hkids.append hrest) hperm
          rw [← hg] at h
          have hgstep : ∀ k, ∀ x ∈ g.preorder, step k x = (emit x, children x) := by
            intro k x hx
            apply hstep
            rw [hgp.mem_iff, Forest.preorder_append] at hx
            exact List.mem_cons_of_mem w hx
          refine (ih hgu hgstep h).trans ?_
          rw [List.append_assoc, Forest.preorder_node, List.flatMap_cons]
          apply List.Perm.append_left
          apply List.Perm.append_left
          rw [← Forest.preorder_append]
          exact hgp.flatMap_right emit

end

/-! ### Stack and queue -/

/-- The children on top of the stack, the last one first. -/
def stack (new ws : List β) : List β := new.reverse ++ ws

/-- The children at the end of the queue. -/
def queue (new ws : List β) : List β := ws ++ new

theorem stack_perm (new ws : List β) : (stack new ws).Perm (new ++ ws) :=
  (List.reverse_perm new).append_right ws

theorem queue_perm (new ws : List β) : (queue new ws).Perm (new ++ ws) := List.perm_append_comm

/-- The order of a queue is the preorder only where no two branches are side by side. -/
theorem drain_queue_eq_preorder_iff {step : ℕ → β → List γ × List β} {children : β → List β}
    {emit : β → γ} (hemit : Function.Injective emit) {f : Forest β} (hf : f.Unfolds children)
    (hstep : ∀ k, ∀ w ∈ f.preorder, step k w = ([emit w], children w))
    (hnodup : f.preorder.Nodup) {out r : List γ} {fuel round : ℕ}
    (h : drain queue step fuel round f.roots out = some r) :
    r = out ++ f.preorder.map emit ↔ f.Slim := by
  induction fuel generalizing f round out with
  | zero =>
      cases f with
      | nil => cases h; simp [Forest.Slim]
      | node w kids rest => cases h
  | succ fuel ih =>
      cases f with
      | nil => cases h; simp [Forest.Slim]
      | node w kids rest =>
          obtain ⟨hkr, hkids, hrest⟩ := hf
          rw [Forest.roots_node, drain_cons, hstep _ w List.mem_cons_self] at h
          have hnext : queue (children w) rest.roots = (rest.append kids).roots := by
            rw [Forest.roots_append, hkr, queue]
          rw [hnext] at h
          have hnd := (List.nodup_cons.mp hnodup).2
          have hnd' : (rest.append kids).preorder.Nodup := by
            rw [Forest.preorder_append]
            exact (List.perm_append_comm.nodup_iff).mp hnd
          have hstep' : ∀ k, ∀ x ∈ (rest.append kids).preorder,
              step k x = ([emit x], children x) := by
            intro k x hx
            apply hstep
            rw [Forest.preorder_append, List.perm_append_comm.mem_iff] at hx
            exact List.mem_cons_of_mem w hx
          have hiff := ih (hrest.append hkids) hstep' hnd' h
          simp only [Forest.preorder_node, Forest.Slim, List.map_cons]
          rw [List.append_assoc, List.singleton_append] at hiff
          by_cases hk : kids = .nil
          · subst hk
            rw [Forest.append_nil] at hiff
            simpa [Forest.Slim] using hiff
          by_cases hr : rest = .nil
          · subst hr
            simpa [Forest.Slim] using hiff
          -- the queue goes on with the next tree, the preorder with the children
          refine iff_of_false ?_ fun hs => hs.1.elim hk hr
          intro hcontra
          obtain - | ⟨a, ka, ra⟩ := rest
          · exact hr rfl
          obtain - | ⟨b, kb, rb⟩ := kids
          · exact hk rfl
          rw [Forest.node_append, Forest.roots_node] at h
          have hpre := prefix_drain_cons h
          rw [hstep' _ a List.mem_cons_self, hcontra, List.append_assoc,
            List.prefix_append_right_inj] at hpre
          have hab : emit a = emit b := by
            obtain ⟨t, ht⟩ := hpre
            simp only [Forest.preorder_node, List.map_cons, List.cons_append, List.map_append] at ht
            injection ht with h1 h2
            injection h2 with h2 h3
          cases hemit hab
          simp at hnd

end Worklist
