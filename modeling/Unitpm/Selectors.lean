import Unitpm.ManagerLib
import Unitpm.Lib.Utf8

/-! # Selectors

How a user names a process.  `Manager::resolve_id` tries `ns:name`, the whole id, an id prefix and
the name, in this order, and wants one match.  `resolve_target` of `unitpm logs` looks at the specs
on disk and takes what matches in any of these ways.  The two never select different processes
(`resolveTarget_agrees`). -/

namespace Unitpm

open Rust.Str Utf8

namespace Daemon

variable {h : Host} {d : Daemon} {id target : String}

/-! ### What the manager selects -/

/-- One entry satisfies `f`, and it is the one under `id`. -/
def Only (d : Daemon) (f : String → Process → Bool) (id : String) : Prop :=
  (∃ p, d.processes.lookup id = some p ∧ f id p = true) ∧
    ∀ k p, d.processes.lookup k = some p → f k p = true → k = id

theorem resolveFromCandidates_ok {candidates : List String} :
    resolveFromCandidates target candidates = .ok id ↔ candidates = [id] := by
  match candidates with
  | [] => simp [resolveFromCandidates]
  | [k] => simp [resolveFromCandidates]
  | k :: l :: ks => simp [resolveFromCandidates]

theorem mem_idsWhere {f : String → Process → Bool} :
    id ∈ d.idsWhere h f ↔ ∃ p, d.processes.lookup id = some p ∧ f id p = true := by
  unfold idsWhere
  rw [List.mem_map]
  constructor
  · rintro ⟨⟨k, p⟩, hk, rfl⟩
    obtain ⟨hmem, hf⟩ := List.mem_filter.mp hk
    exact ⟨p, (h.mem_iter _).mp hmem, hf⟩
  · rintro ⟨p, hp, hf⟩
    exact ⟨(id, p), List.mem_filter.mpr ⟨(h.mem_iter _).mpr hp, hf⟩, rfl⟩

theorem idsWhere_eq_nil {f : String → Process → Bool} :
    d.idsWhere h f = [] ↔ ∀ k p, d.processes.lookup k = some p → f k p = false := by
  rw [List.eq_nil_iff_forall_not_mem]
  constructor
  · intro hn k p hp
    exact Bool.eq_false_iff.mpr fun hf => hn k (mem_idsWhere.mpr ⟨p, hp, hf⟩)
  · intro hn k hk
    obtain ⟨p, hp, hf⟩ := mem_idsWhere.mp hk
    exact absurd hf (by simp [hn k p hp])

theorem nodup_idsWhere (f : String → Process → Bool) : (d.idsWhere h f).Nodup := by
  refine List.Nodup.sublist ?_ (h.nodup_keys_iter d.processes.entries)
  exact List.filter_sublist.map Prod.fst

theorem idsWhere_eq_singleton {f : String → Process → Bool} :
    d.idsWhere h f = [id] ↔ d.Only f id := by
  constructor
  · intro he
    refine ⟨mem_idsWhere.mp (by rw [he]; exact List.mem_singleton.mpr rfl), fun k p hp hf => ?_⟩
    have hk : k ∈ d.idsWhere h f := mem_idsWhere.mpr ⟨p, hp, hf⟩
    rw [he] at hk
    exact List.mem_singleton.mp hk
  · rintro ⟨hid, hall⟩
    have hperm : (d.idsWhere h f).Perm [id] := by
      rw [List.perm_ext_iff_of_nodup (nodup_idsWhere f) (List.nodup_singleton id)]
      intro k
      rw [List.mem_singleton]
      constructor
      · intro hk
        obtain ⟨p, hp, hf⟩ := mem_idsWhere.mp hk
        exact hall k p hp hf
      · rintro rfl
        exact mem_idsWhere.mpr hid
    exact List.perm_singleton.mp hperm

/-- The rules of `resolve_id`: the first with a match decides, and wants no second match. -/
inductive Selects (d : Daemon) (target : String) (id : String) : Prop
  | qualified (ns name : String) (hsplit : splitOnceAt ':' target = some (ns, name))
      (honly : d.Only (fun _ p => p.info.ns == ns && p.info.name == name) id)
  | whole (hsplit : splitOnceAt ':' target = none) (heq : target = id)
      (hid : (d.processes.lookup id).isSome = true)
  | byPrefix (hsplit : splitOnceAt ':' target = none) (hid : d.processes.lookup target = none)
      (honly : d.Only (fun k _ => startsWith target k) id)
  | byName (hsplit : splitOnceAt ':' target = none) (hid : d.processes.lookup target = none)
      (hpre : ∀ k p, d.processes.lookup k = some p → startsWith target k = false)
      (honly : d.Only (fun _ p => p.info.name == target) id)

theorem resolveId_ok_iff : d.resolveId h target = .ok id ↔ d.Selects target id := by
  unfold resolveId
  cases hs : splitOnceAt ':' target with
  | some e =>
      obtain ⟨ns, name⟩ := e
      simp only
      rw [resolveFromCandidates_ok, idsWhere_eq_singleton]
      constructor
      · exact .qualified ns name hs
      · rintro (⟨ns', name', hs', honly⟩ | ⟨hs', -, -⟩ | ⟨hs', -, -⟩ | ⟨hs', -, -, -⟩)
        · obtain ⟨rfl, rfl⟩ := Prod.mk.inj (Option.some.inj (hs.symm.trans hs'))
          exact honly
        all_goals cases hs.symm.trans hs'
  | none =>
      simp only
      split_ifs with hid hp
      · rw [Except.ok.injEq]
        constructor
        · rintro rfl
          exact .whole hs rfl hid
        · rintro (⟨ns', name', hs', -⟩ | ⟨-, heq, -⟩ | ⟨-, hn, -⟩ | ⟨-, hn, -, -⟩)
          · cases hs.symm.trans hs'
          · exact heq
          all_goals rw [hn] at hid; cases hid
      · rw [resolveFromCandidates_ok, idsWhere_eq_singleton]
        have hn := Option.not_isSome_iff_eq_none.mp hid
        constructor
        · exact .byPrefix hs hn
        · rintro (⟨ns', name', hs', -⟩ | ⟨-, rfl, hk⟩ | ⟨-, -, honly⟩ | ⟨-, -, hall, -⟩)
          · cases hs.symm.trans hs'
          · exact absurd hk hid
          · exact honly
          · exact absurd (idsWhere_eq_nil.mpr hall) hp
      · rw [resolveFromCandidates_ok, idsWhere_eq_singleton]
        have hn := Option.not_isSome_iff_eq_none.mp hid
        have hall := idsWhere_eq_nil.mp (not_not.mp hp)
        constructor
        · exact .byName hs hn hall
        · rintro (⟨ns', name', hs', -⟩ | ⟨-, rfl, hk⟩ | ⟨-, -, ⟨p, hlook, hpre⟩, -⟩ |
            ⟨-, -, -, honly⟩)
          · cases hs.symm.trans hs'
          · exact absurd hk hid
          · exact absurd hpre (by simp [hall _ p hlook])
          · exact honly

end Daemon

/-! ### What `unitpm logs` selects -/

namespace Logs

/-- The namespace and the rest of a target. -/
def targetParts (target : String) : String × String :=
  match splitOnceAt ':' target with
  | some (ns, rest) => (ns, rest)
  | none => ("", target)

/-- The test of the loop of `resolve_target`. -/
def targetMatches (ns nameOrId : String) (s : AppSpec) : Bool :=
  let specNs := if orEmpty s.ns = "" then defaultNamespace else orEmpty s.ns
  !(ns ≠ "" && specNs ≠ ns) &&
    (s.id == nameOrId || s.name == nameOrId || startsWith nameOrId s.id)

/-- A match of the loop: it is kept, unless another process matched before. -/
def keepMatch (target : String) (matched : Option AppSpec) (s : AppSpec) :
    Except String AppSpec :=
  match matched with
  | none => .ok s
  | some prev =>
      if prev.id ≠ s.id then
        .error ("ambiguous argument " ++ debug target ++ ": matches multiple processes")
      else .ok s

/-- The loop of `resolve_target`. -/
def resolveLoop (target : String) (matched : Option AppSpec) :
    List AppSpec → Except String AppSpec
  | [] => matched.elim (.error ("process " ++ debug target ++ " not found")) .ok
  | s :: specs =>
      if targetMatches (targetParts target).1 (targetParts target).2 s then
        match keepMatch target matched s with
        | .error e => .error e
        | .ok s => resolveLoop target (some s) specs
      else resolveLoop target matched specs

/-- `resolve_target`. -/
def resolveTarget (h : Host) (dir : SpecDir) (target : String) : Except String AppSpec :=
  match dir.loadAll h with
  | .error e => .error ("failed to load specs: " ++ e)
  | .ok specs => resolveLoop target none specs

theorem keepMatch_ok {target : String} {matched : Option AppSpec} {s t : AppSpec}
    (h : keepMatch target matched s = .ok t) : t = s ∧ ∀ m ∈ matched, m.id = s.id := by
  cases matched with
  | none =>
      obtain rfl := Except.ok.inj h
      simp
  | some prev =>
      rw [keepMatch] at h
      split_ifs at h with hne
      obtain rfl := Except.ok.inj h
      refine ⟨rfl, fun m hm => ?_⟩
      obtain rfl := Option.some.inj hm
      exact not_not.mp hne

/-- What the loop returns has the id of every match. -/
theorem id_of_resolveLoop {target : String} {matched : Option AppSpec} {specs : List AppSpec}
    {s : AppSpec} (h : resolveLoop target matched specs = .ok s) :
    (∀ m ∈ matched, m.id = s.id) ∧ ∀ t ∈ specs,
      targetMatches (targetParts target).1 (targetParts target).2 t = true → t.id = s.id := by
  induction specs generalizing matched with
  | nil =>
      cases matched with
      | none => cases h
      | some m =>
          obtain rfl := Except.ok.inj h
          simp
  | cons t specs ih =>
      rw [resolveLoop] at h
      split_ifs at h with hm
      · split at h
        · cases h
        · rename_i t' hkeep
          obtain ⟨rfl, hprev⟩ := keepMatch_ok hkeep
          obtain ⟨ht, hrest⟩ := ih h
          have he : t'.id = s.id := ht t' rfl
          exact ⟨fun m hmem => (hprev m hmem).trans he,
            List.forall_mem_cons.mpr ⟨fun _ => he, hrest⟩⟩
      · obtain ⟨hmatched, hrest⟩ := ih h
        exact ⟨hmatched, List.forall_mem_cons.mpr ⟨fun ht => absurd ht hm, hrest⟩⟩

/-- The entries of a registry and the specs on disk are the same processes. -/
structure Corresponds (d : Daemon) (specs : List AppSpec) : Prop where
  stored : ∀ id p, d.processes.lookup id = some p → ∃ s ∈ specs, s.id = id
  registered : ∀ s ∈ specs, ∃ p, d.processes.lookup s.id = some p ∧ p.info.name = s.name ∧
    s.ns = some p.info.ns
  named : ∀ s ∈ specs, s.name ≠ "" ∧ orEmpty s.ns ≠ ""

/-- What the manager selects matches the target. -/
theorem targetMatches_of_selects {d : Daemon} {specs : List AppSpec} {target id : String}
    (hc : Corresponds d specs) (hs : d.Selects target id) :
    ∃ s ∈ specs, s.id = id ∧
      targetMatches (targetParts target).1 (targetParts target).2 s = true := by
  have hfind : ∀ {f : String → Process → Bool}, d.Only f id → ∃ s ∈ specs, s.id = id ∧
      ∃ p, f id p = true ∧ p.info.name = s.name ∧ s.ns = some p.info.ns := by
    rintro f ⟨⟨p, hp, hf⟩, -⟩
    obtain ⟨s, hmem, rfl⟩ := hc.stored id p hp
    obtain ⟨q, hq, hname, hns⟩ := hc.registered s hmem
    obtain rfl := Option.some.inj (hp.symm.trans hq)
    exact ⟨s, hmem, rfl, p, hf, hname, hns⟩
  cases hs with
  | qualified ns name hsplit honly =>
      obtain ⟨s, hmem, rfl, p, hf, hname, hns⟩ := hfind honly
      refine ⟨s, hmem, rfl, ?_⟩
      obtain ⟨rfl, rfl⟩ : p.info.ns = ns ∧ p.info.name = name := by simpa using hf
      have hne := (hc.named s hmem).2
      rw [hns] at hne
      rw [targetParts, hsplit]
      simpa [targetMatches, hns, hname, orEmpty] using Or.inr (Or.inl hne)
  | whole hsplit heq hid =>
      obtain ⟨p, hp⟩ := Option.isSome_iff_exists.mp hid
      obtain ⟨s, hmem, hsid⟩ := hc.stored id p hp
      refine ⟨s, hmem, hsid, ?_⟩
      rw [targetParts, hsplit]
      simp [targetMatches, hsid, heq]
  | byPrefix hsplit hid honly =>
      obtain ⟨s, hmem, rfl, p, hf, -, -⟩ := hfind honly
      refine ⟨s, hmem, rfl, ?_⟩
      rw [targetParts, hsplit]
      simp [targetMatches, hf]
  | byName hsplit hid hpre honly =>
      obtain ⟨s, hmem, rfl, p, hf, hname, -⟩ := hfind honly
      refine ⟨s, hmem, rfl, ?_⟩
      rw [targetParts, hsplit]
      have hn : s.name = target := hname.symm.trans (by simpa using hf)
      simp [targetMatches, hn]

/-- **The two resolvers agree.**  Where both select something, it is the same process. -/
theorem resolveTarget_agrees (h hcli : Host) (d : Daemon) (dir : SpecDir) (target : String)
    (s : AppSpec) (id : String)
    (hc : ∀ specs, dir.loadAll hcli = .ok specs → Corresponds d specs)
    (htarget : resolveTarget hcli dir target = .ok s) (hid : d.resolveId h target = .ok id) :
    s.id = id := by
  unfold resolveTarget at htarget
  split at htarget
  · cases htarget
  · rename_i specs hload
    obtain ⟨t, hmem, rfl, hm⟩ :=
      targetMatches_of_selects (hc specs hload) (Daemon.resolveId_ok_iff.mp hid)
    exact ((id_of_resolveLoop htarget).2 t hmem hm).symm

/-- The specs of a directory with one process. -/
def oneSpec : AppSpec := { plainSpec demoId with ns := some "default" }

def oneProcess : Process where
  info := { id := demoId, name := "api", ns := "default" }
  spec := oneSpec
  id_eq := rfl
  name_eq := by decide
  ns_eq := by decide
  cron_ok := rfl

/-- A process of another namespace, whose name begins the id of the first. -/
def prodSpec : AppSpec :=
  { plainSpec "7c11f0aa-0000-7000-8000-000000000002" with name := "0190b5a0", ns := some "prod" }

def prodProcess : Process where
  info := { id := prodSpec.id, name := "0190b5a0", ns := "prod" }
  spec := prodSpec
  id_eq := rfl
  name_eq := by decide
  ns_eq := by decide
  cron_ok := rfl

def twoProcesses : Daemon := { processes := (Registry.empty.insert oneProcess).insert prodProcess }

def twoSpecs : SpecDir :=
  AList.insert prodSpec.id (.spec prodSpec) (AList.insert demoId (.spec oneSpec) ∅)

theorem lookup_twoProcesses (id : String) : twoProcesses.processes.lookup id =
    if id = prodSpec.id then some prodProcess
    else if id = demoId then some oneProcess else none := by
  rw [twoProcesses, Registry.lookup_insert, Registry.lookup_insert]
  simp only [Function.update_apply, Registry.lookup_empty]
  rfl

theorem corresponds_two : Corresponds twoProcesses [prodSpec, oneSpec] where
  stored id p hp := by
    rw [lookup_twoProcesses] at hp
    split_ifs at hp with h1 h2
    · exact ⟨prodSpec, List.mem_cons_self, h1.symm⟩
    · exact ⟨oneSpec, by simp, h2.symm⟩
  registered s hs := by
    rcases List.mem_pair.mp hs with rfl | rfl
    · exact ⟨prodProcess, lookup_twoProcesses prodSpec.id, rfl, rfl⟩
    · exact ⟨oneProcess, lookup_twoProcesses demoId, rfl, rfl⟩
  named s hs := by
    rcases List.mem_pair.mp hs with rfl | rfl
    · decide
    · decide

theorem resolveTarget_agrees_prod :
    ∃ s, resolveTarget userHost twoSpecs "prod:0190b5a0" = .ok s ∧ s.id = prodSpec.id := by
  refine ⟨prodSpec, by decide +kernel, ?_⟩
  refine resolveTarget_agrees userHost userHost twoProcesses twoSpecs "prod:0190b5a0" prodSpec
    prodSpec.id (fun specs hload => ?_) (by decide +kernel) (by decide +kernel)
  have hl : SpecDir.loadAll userHost twoSpecs = .ok [prodSpec, oneSpec] := by decide +kernel
  obtain rfl := Except.ok.inj (hload.symm.trans hl)
  exact corresponds_two

end Logs

end Unitpm
