import Unitpm.Selectors
import Unitpm.Service

/-! # What an identifier denotes

`Denotes` states what a user may expect of an identifier: there are four ways to name a process, the
first of them that fits anything decides, and has to fit one process only.  `Manager::resolve_id`
returns nothing else, and resolves every `ns:name` of a process that is alone in its namespace under
its name (`denotes_of_resolveId`, `resolveId_qualified`).

The empty identifier begins every id, so it resolves to the only process there is, if there is one
only; the handlers of destructive requests do not look at it first.  That is the one exception
(`resolution_iff`). -/

namespace Unitpm

open Rust.Str

namespace Daemon

/-- The ways to name a process, in the order they are tried. -/
inductive Rule where
  | qualified
  | wholeId
  | idPrefix
  | name
deriving DecidableEq

/-- The place of the rule in that order. -/
def Rule.place : Rule → ℕ
  | .qualified => 0
  | .wholeId => 1
  | .idPrefix => 2
  | .name => 3

/-- The rule fits the process. -/
def Rule.hits (target : String) : Rule → String → Process → Bool
  | .qualified, _, p => p.info.ns ++ ":" ++ p.info.name == target
  | .wholeId, id, _ => id == target
  | .idPrefix, id, _ => startsWith target id
  | .name, _, p => p.info.name == target

/-- The identifier denotes the process: a rule fits it alone, and no rule before fits anything. -/
def Denotes (d : Daemon) (target id : String) : Prop :=
  ∃ r : Rule, d.Only (r.hits target) id ∧
    ∀ r' : Rule, r'.place < r.place → ∀ k p, d.processes.lookup k = some p →
      r'.hits target k p = false

/-- Names and namespaces are such as `validate_spec` accepts; an id is a UUID. -/
structure ValidEntries (d : Daemon) : Prop where
  names : ∀ id p, d.processes.lookup id = some p → nameRegexValid p.info.name = true
  namespaces : ∀ id p, d.processes.lookup id = some p → namespaceRegexValid p.info.ns = true
  ids : d.processes.lookup "" = none

variable {h : Host} {d : Daemon} {target id : String} {p : Process}

theorem Only.congr {f g : String → Process → Bool}
    (hfg : ∀ k p, d.processes.lookup k = some p → f k p = g k p) (hf : d.Only f id) :
    d.Only g id := by
  obtain ⟨⟨p, hp, hfp⟩, hall⟩ := hf
  refine ⟨⟨p, hp, hfg id p hp ▸ hfp⟩, fun k q hq hg => ?_⟩
  exact hall k q hq (hfg k q hq ▸ hg)

/-! ### Namespaces and the colon -/

theorem colon_not_mem {ns : String} (hns : namespaceRegexValid ns = true) : ':' ∉ ns.toList := by
  intro hc
  simp only [namespaceRegexValid, labelValid, Bool.and_eq_true, List.all_eq_true] at hns
  have := hns.2 ':' hc
  revert this
  decide

theorem splitOnceAt_qualified {ns : String} (name : String)
    (hns : namespaceRegexValid ns = true) :
    splitOnceAt ':' (ns ++ ":" ++ name) = some (ns, name) := by
  have hl : (ns ++ ":" ++ name).toList = ns.toList ++ ':' :: name.toList := by simp
  rw [splitOnceAt, hl, splitOnce_append _ (colon_not_mem hns)]
  simp

theorem hits_qualified_iff (hns : namespaceRegexValid p.info.ns = true) (k : String) :
    Rule.qualified.hits target k p = true ↔
      splitOnceAt ':' target = some (p.info.ns, p.info.name) := by
  simp only [Rule.hits, beq_iff_eq]
  constructor
  · rintro rfl
    exact splitOnceAt_qualified _ hns
  · intro hs
    obtain ⟨⟨k, v⟩, hl, he⟩ := Option.map_eq_some_iff.mp hs
    obtain ⟨hns', hname⟩ := Prod.mk.inj he
    obtain ⟨htarget, -⟩ := splitOnce_spec hl
    apply String.toList_injective
    rw [← hns', ← hname, htarget]
    simp

theorem not_hits_qualified (hd : d.ValidEntries) (hs : splitOnceAt ':' target = none) (k : String)
    (hp : d.processes.lookup k = some p) : Rule.qualified.hits target k p = false := by
  rw [← Bool.not_eq_true, hits_qualified_iff (hd.namespaces k p hp) k, hs]
  simp

/-! ### What `resolve_id` returns -/

theorem denotes_of_resolveId (hd : d.ValidEntries) (hr : d.resolveId h target = .ok id) :
    d.Denotes target id := by
  have hwhole : d.processes.lookup target = none → ∀ k p, d.processes.lookup k = some p →
      Rule.wholeId.hits target k p = false := by
    intro hn k p hp
    rw [Rule.hits, beq_eq_false_iff_ne]
    rintro rfl
    rw [hn] at hp
    cases hp
  cases resolveId_ok_iff.mp hr with
  | qualified ns name hsplit honly =>
      refine ⟨.qualified, honly.congr fun k p hp => ?_, fun _ hlt => absurd hlt (Nat.not_lt_zero _)⟩
      rw [Bool.eq_iff_iff, hits_qualified_iff (hd.namespaces k p hp) k, hsplit]
      simp only [Bool.and_eq_true, beq_iff_eq, Option.some.injEq, Prod.mk.injEq]
      exact and_congr eq_comm eq_comm
  | whole hsplit heq hid =>
      subst heq
      obtain ⟨p, hp⟩ := Option.isSome_iff_exists.mp hid
      refine ⟨.wholeId, ⟨⟨p, hp, by simp [Rule.hits]⟩, fun k q _ hk => ?_⟩,
        fun r' hlt k q hq => ?_⟩
      · simpa [Rule.hits] using hk
      cases r' with
      | qualified => exact not_hits_qualified hd hsplit k hq
      | wholeId => exact absurd hlt (by decide)
      | idPrefix => exact absurd hlt (by decide)
      | name => exact absurd hlt (by decide)
  | byPrefix hsplit hid honly =>
      refine ⟨.idPrefix, honly, fun r' hlt k q hq => ?_⟩
      cases r' with
      | qualified => exact not_hits_qualified hd hsplit k hq
      | wholeId => exact hwhole hid k q hq
      | idPrefix => exact absurd hlt (by decide)
      | name => exact absurd hlt (by decide)
  | byName hsplit hid hpre honly =>
      refine ⟨.name, honly, fun r' hlt k q hq => ?_⟩
      cases r' with
      | qualified => exact not_hits_qualified hd hsplit k hq
      | wholeId => exact hwhole hid k q hq
      | idPrefix => exact hpre k q hq
      | name => exact absurd hlt (by decide)

theorem resolveId_qualified (hd : d.ValidEntries) (hp : d.processes.lookup id = some p)
    (honly : ∀ k q, d.processes.lookup k = some q → q.info.ns = p.info.ns →
      q.info.name = p.info.name → k = id) :
    d.resolveId h (p.info.ns ++ ":" ++ p.info.name) = .ok id := by
  apply resolveId_ok_iff.mpr
  refine .qualified p.info.ns p.info.name (splitOnceAt_qualified _ (hd.namespaces id p hp))
    ⟨⟨p, hp, by simp⟩, fun k q hq hk => ?_⟩
  obtain ⟨h1, h2⟩ : q.info.ns = p.info.ns ∧ q.info.name = p.info.name := by simpa using hk
  exact honly k q hq h1 h2

/-! ### The empty identifier -/

theorem startsWith_empty (k : String) : startsWith "" k = true := rfl

theorem size_eq_one_iff :
    d.processes.size = 1 ↔ ∃ id, d.Only (fun k _ => startsWith "" k) id := by
  rw [Registry.size, List.length_eq_one_iff]
  constructor
  · rintro ⟨id, hk⟩
    have hmem : ∀ k, (∃ p, d.processes.lookup k = some p) ↔ k = id := by
      intro k
      rw [← mem_keys, hk, List.mem_singleton]
    obtain ⟨p, hp⟩ := (hmem id).mpr rfl
    exact ⟨id, ⟨p, hp, startsWith_empty id⟩, fun k q hq _ => (hmem k).mp ⟨q, hq⟩⟩
  · rintro ⟨id, ⟨p, hp, -⟩, hall⟩
    refine ⟨id, List.perm_singleton.mp ?_⟩
    apply (List.perm_ext_iff_of_nodup d.processes.entries.keys_nodup (List.nodup_singleton id)).mpr
    intro k
    rw [mem_keys, List.mem_singleton]
    constructor
    · rintro ⟨q, hq⟩
      exact hall k q hq (startsWith_empty k)
    · rintro rfl
      exact ⟨p, hp⟩

theorem resolveId_empty (hd : d.ValidEntries) :
    (∃ id, d.resolveId h "" = .ok id) ↔ d.processes.size = 1 := by
  rw [size_eq_one_iff]
  have hsplit : splitOnceAt ':' "" = none := by decide
  constructor
  · rintro ⟨id, hr⟩
    cases resolveId_ok_iff.mp hr with
    | qualified ns name hs _ => cases hsplit.symm.trans hs
    | whole _ heq hid =>
        rw [← heq, hd.ids] at hid
        cases hid
    | byPrefix _ _ honly => exact ⟨id, honly⟩
    | byName _ _ hpre honly =>
        obtain ⟨⟨p, hp, -⟩, -⟩ := honly
        cases (startsWith_empty id).symm.trans (hpre id p hp)
  · rintro ⟨id, honly⟩
    exact ⟨id, resolveId_ok_iff.mpr (.byPrefix hsplit hd.ids honly)⟩

theorem idHandler_of_error {e : ManagerError} (hr : d.resolveId h target = .error e)
    (action : Host → Daemon → String → Daemon × Except ManagerError Unit)
    (answer : String → Response) :
    d.idHandler h target action answer = (d, .error e.toText) := by
  rw [idHandler, hr]

/-- What is expected of an identifier: it resolves to what it denotes, to a process that is alone
under `ns:name`, and not at all, with no effect, if it is empty. -/
structure Resolves (h : Host) (d : Daemon) (target : String) : Prop where
  denotes : ∀ id, d.resolveId h target = .ok id → d.Denotes target id
  qualified : ∀ id p, d.processes.lookup id = some p → target = p.info.ns ++ ":" ++ p.info.name →
    (∀ k q, d.processes.lookup k = some q → q.info.ns = p.info.ns → q.info.name = p.info.name →
      k = id) → d.resolveId h target = .ok id
  empty : target = "" → (∀ id, d.resolveId h target ≠ .ok id) ∧
    ∀ action answer, (d.idHandler h target action answer).1 = d

/-- **Resolution.** An identifier is resolved as expected, with the one exception of the empty
identifier where a single process is registered. -/
theorem resolution_iff (h : Host) (target : String) (hd : d.ValidEntries) :
    Resolves h d target ↔ (target = "" → d.processes.size ≠ 1) := by
  constructor
  · rintro hr rfl hsize
    obtain ⟨id, hid⟩ := (resolveId_empty hd).mpr hsize
    exact (hr.empty rfl).1 id hid
  · intro hc
    refine ⟨fun id => denotes_of_resolveId hd, ?_, ?_⟩
    · rintro id p hp rfl honly
      exact resolveId_qualified hd hp honly
    · rintro rfl
      have hnot : ∀ id, d.resolveId h "" ≠ .ok id := by
        intro id hid
        exact hc rfl ((resolveId_empty hd).mp ⟨id, hid⟩)
      refine ⟨hnot, fun action answer => ?_⟩
      cases hr : d.resolveId h "" with
      | ok id => exact absurd hr (hnot id)
      | error e => rw [idHandler_of_error hr]

/-- A daemon with one process, `api`. -/
def onlyApi : Daemon where
  processes := .insert .empty Logs.oneProcess

theorem validEntries_onlyApi : onlyApi.ValidEntries := by
  have hone : ∀ id p, onlyApi.processes.lookup id = some p → p = Logs.oneProcess := by
    intro id p hp
    rw [onlyApi, Registry.lookup_insert] at hp
    by_cases hid : id = Logs.oneProcess.info.id
    · rw [hid, Function.update_self] at hp
      exact (Option.some.inj hp).symm
    · rw [Function.update_of_ne hid, Registry.lookup_empty] at hp
      cases hp
  refine ⟨fun id p hp => ?_, fun id p hp => ?_, by decide +kernel⟩
  · rw [hone id p hp]
    decide
  · rw [hone id p hp]
    decide

theorem resolves_qualified_onlyApi : Resolves userHost onlyApi "default:api" :=
  (resolution_iff userHost "default:api" validEntries_onlyApi).mpr fun he =>
    absurd he (by decide)

/-- A delete request for the empty identifier deletes the only process. -/
theorem empty_identifier_deletes :
    onlyApi.ValidEntries ∧ onlyApi.resolveId userHost "" = .ok demoId ∧
      (onlyApi.deleteHandler userHost "").2 = .ok (.done "deleted" demoId) ∧
      (onlyApi.deleteHandler userHost "").1.processes.size = 0 ∧
      ¬ Resolves userHost onlyApi "" := by
  have hr : onlyApi.resolveId userHost "" = .ok demoId := by decide +kernel
  exact ⟨validEntries_onlyApi, hr, by decide +kernel, by decide +kernel,
    fun hs => (hs.empty rfl).1 demoId hr⟩

end Daemon

end Unitpm
