import Unitpm.ManagerLib

/-! # Scaling

`Manager::scale` counts the entries of a namespace that are called `base` or `base-k`, and deletes
or creates until there are `target` of them.  `Registers` and `Removes` say what a run of creations
and a run of deletions leave of the registry; the snapshot `scale` works on is a permutation of the
matching entries, whatever order the map is read in (`perm_members`).  Together they give what a
request that succeeds has done (`scale_done`). -/

namespace Unitpm

open Rust.Str Run

namespace Daemon

/-! ### Names of instances -/

theorem toList_instanceName (base : String) (n : ℕ) :
    (instanceName base n).toList = (base ++ "-").toList ++ padZero 0 n := by
  simp [instanceName, padZero, List.leftpad]

theorem instanceName_injective (base : String) : Function.Injective (instanceName base) := by
  intro m n hmn
  have hd : padZero 0 m = padZero 0 n := by
    have hl := congrArg String.toList hmn
    rw [toList_instanceName, toList_instanceName] at hl
    exact List.append_cancel_left hl
  rw [← digitsVal_padZero 0 m, hd, digitsVal_padZero]

/-- The `k` of a name `base-k`, if it is a `u32`. -/
def indexOf (base name : String) : Option ℕ :=
  (stripPrefix? (base ++ "-") name).bind fun rest => parseUnsigned (2 ^ 32 - 1) rest.toList

theorem isInstanceName_eq (base name : String) :
    isInstanceName base name = (indexOf base name).isSome := by
  unfold isInstanceName indexOf
  cases stripPrefix? (base ++ "-") name with
  | none => rfl
  | some rest => rfl

theorem indexOf_instanceName (base : String) {n : ℕ} (hn : n < 2 ^ 32) :
    indexOf base (instanceName base n) = some n := by
  have hs : stripPrefix? (base ++ "-") (instanceName base n) =
      some (String.ofList (padZero 0 n)) := by
    unfold stripPrefix? startsWith
    rw [toList_instanceName, List.drop_left, if_pos]
    exact List.isPrefixOf_iff_prefix.mpr (List.prefix_append ..)
  rw [indexOf, hs, Option.bind_some, String.toList_ofList]
  exact parseUnsigned_padZero (by omega)

/-! ### Free indices -/

/-- Where the search for a free index ends: every index before is taken, and so is the last one only
if the fuel ran out. -/
theorem freeIndex_spec (taken : List String) (base : String) (fuel next : ℕ) :
    next ≤ freeIndex taken base fuel next ∧ freeIndex taken base fuel next ≤ next + fuel ∧
      (∀ j, next ≤ j → j < freeIndex taken base fuel next → instanceName base j ∈ taken) ∧
      (instanceName base (freeIndex taken base fuel next) ∈ taken →
        freeIndex taken base fuel next = next + fuel) := by
  induction fuel generalizing next with
  | zero => exact ⟨le_rfl, le_rfl, fun j h1 h2 => absurd h1 (by rw [freeIndex] at h2; omega),
      fun _ => rfl⟩
  | succ fuel ih =>
      unfold freeIndex
      by_cases ht : instanceName base next ∈ taken
      · rw [if_pos ht]
        obtain ⟨h1, h2, h3, h4⟩ := ih (next + 1)
        refine ⟨by omega, by omega, fun j hj hlt => ?_, fun hm => ?_⟩
        · rcases Nat.eq_or_lt_of_le hj with rfl | hj
          · exact ht
          · exact h3 j hj hlt
        · rw [h4 hm]
          omega
      · rw [if_neg ht]
        exact ⟨le_rfl, by omega, fun j h1 h2 => by omega, fun hm => absurd hm ht⟩

/-- The fuel never runs out: one more index than there are names cannot all be taken. -/
theorem freeIndex_not_mem (taken : List String) (base : String) (next : ℕ) :
    instanceName base (freeIndex taken base taken.length next) ∉ taken := by
  intro hm
  obtain ⟨-, -, hbefore, hlast⟩ := freeIndex_spec taken base taken.length next
  have hend := hlast hm
  let used := (List.range (taken.length + 1)).map fun i => instanceName base (next + i)
  have hnodup : used.Nodup := by
    refine List.nodup_range.map fun i j hij => ?_
    have := instanceName_injective base hij
    omega
  have hsub : used ⊆ taken := by
    intro name hname
    obtain ⟨i, hi, rfl⟩ := List.mem_map.mp hname
    have hi := List.mem_range.mp hi
    rcases Nat.lt_succ_iff_lt_or_eq.mp hi with hlt | rfl
    · exact hbefore (next + i) (by omega) (by omega)
    · rw [← hend]
      exact hm
  have hlen := (List.subperm_of_subset hnodup hsub).length_le
  simp [used] at hlen

/-- The names of new instances are free, differ from each other, and have indices far below
`2 ^ 32`. -/
theorem newNames_spec (base : String) (count : ℕ) (taken : List String) (next : ℕ) :
    (newNames base count taken next).Nodup ∧
      ∀ name ∈ newNames base count taken next, name ∉ taken ∧
        ∃ k ≤ next + count * (taken.length + count), name = instanceName base k := by
  induction count generalizing taken next with
  | zero => exact ⟨List.nodup_nil, by simp [newNames]⟩
  | succ count ih =>
      have hfree := freeIndex_not_mem taken base next
      obtain ⟨-, hle, -⟩ := freeIndex_spec taken base taken.length next
      simp only [newNames]
      generalize freeIndex taken base taken.length next = i at hfree hle
      obtain ⟨hnd, hall⟩ := ih (instanceName base i :: taken) (i + 1)
      have hexp : (count + 1) * (taken.length + (count + 1)) =
          count * (taken.length + 1 + count) + (taken.length + 1 + count) := by
        rw [Nat.succ_mul, Nat.add_right_comm taken.length 1 count, Nat.add_assoc]
      refine ⟨List.nodup_cons.mpr ⟨fun hm => (hall _ hm).1 (by simp), hnd⟩, fun name hm => ?_⟩
      rcases List.mem_cons.mp hm with rfl | hm
      · exact ⟨hfree, i, by omega, rfl⟩
      · obtain ⟨hnot, k, hk, rfl⟩ := hall name hm
        rw [List.length_cons] at hk
        exact ⟨fun ht => hnot (by simp [ht]), k, by omega, rfl⟩

/-! ### The members of a snapshot -/

/-- The process is called `base` or `base-k` in the namespace. -/
def isMember (ns base : String) (p : Process) : Bool :=
  p.info.ns == ns && (p.info.name == base || isInstanceName base p.info.name)

/-- The ids of the matching entries. -/
def memberIds (d : Daemon) (ns base : String) : List String :=
  d.processes.entries.keys.filter fun id => (d.processes.lookup id).any (isMember ns base)

variable {h : Host} {d d' : Daemon} {ns base : String}

theorem mem_memberIds {id : String} :
    id ∈ d.memberIds ns base ↔ ∃ p, d.processes.lookup id = some p ∧ isMember ns base p = true := by
  rw [memberIds, List.mem_filter, mem_keys, Option.any_eq_true]
  constructor
  · rintro ⟨-, hm⟩
    exact hm
  · rintro ⟨p, hp, hm⟩
    exact ⟨⟨p, hp⟩, p, hp, hm⟩

theorem nodup_memberIds (d : Daemon) (ns base : String) : (d.memberIds ns base).Nodup :=
  d.processes.entries.keys_nodup.filter _

/-- An entry as the snapshot has it. -/
def member (e : String × Process) : String × String := (e.2.info.name, e.1)

/-- The snapshot: what is called `base`, the last read first, then the numbered instances in the
order the map is read in. -/
theorem foldl_addMember (ns base : String) (l : List (String × Process))
    (acc : List (String × String)) :
    l.foldl (addMember ns base) acc =
      ((l.filter fun e => isMember ns base e.2).filter
          fun e => e.2.info.name == base).reverse.map member ++ acc ++
        ((l.filter fun e => isMember ns base e.2).filter
          fun e => !(e.2.info.name == base)).map member := by
  induction l generalizing acc with
  | nil => simp
  | cons e l ih =>
      rw [List.foldl_cons, ih, List.filter_cons]
      by_cases hns : e.2.info.ns = ns
      · by_cases hname : e.2.info.name = base
        · have hm : isMember ns base e.2 = true := by simp [isMember, hns, hname]
          have ha : addMember ns base acc e = member e :: acc := by
            simp [addMember, member, hns, hname]
          simp [hm, ha, hname]
        · cases hi : isInstanceName base e.2.info.name with
          | true =>
              have hm : isMember ns base e.2 = true := by simp [isMember, hns, hi]
              have ha : addMember ns base acc e = acc ++ [member e] := by
                simp [addMember, member, hns, hname, hi]
              simp [hm, ha, hname]
          | false =>
              have hm : isMember ns base e.2 = false := by simp [isMember, hname, hi]
              have ha : addMember ns base acc e = acc := by simp [addMember, hname, hi]
              simp [hm, ha]
      · have hm : isMember ns base e.2 = false := by simp [isMember, hns]
        have ha : addMember ns base acc e = acc := by simp [addMember, hns]
        simp [hm, ha]

theorem perm_members (h : Host) (d : Daemon) (ns base : String) :
    (d.scaleSnapshot h ns base).members.Perm
      (((h.iter d.processes.entries).filter fun e => isMember ns base e.2).map member) := by
  rw [scaleSnapshot, foldl_addMember, List.append_nil, ← List.map_append]
  apply List.Perm.map
  exact ((List.reverse_perm _).append_right _).trans (List.filter_append_perm ..)

theorem mem_members {m : String × String} :
    m ∈ (d.scaleSnapshot h ns base).members ↔
      ∃ p, d.processes.lookup m.2 = some p ∧ isMember ns base p = true ∧ p.info.name = m.1 := by
  rw [(perm_members h d ns base).mem_iff, List.mem_map]
  constructor
  · rintro ⟨⟨id, p⟩, he, rfl⟩
    obtain ⟨hi, hm⟩ := List.mem_filter.mp he
    exact ⟨p, (h.mem_iter _).mp hi, hm, rfl⟩
  · rintro ⟨p, hp, hm, hname⟩
    exact ⟨(m.2, p), List.mem_filter.mpr ⟨(h.mem_iter _).mpr hp, hm⟩, Prod.ext hname rfl⟩

theorem perm_memberIds (h : Host) (d : Daemon) (ns base : String) :
    ((d.scaleSnapshot h ns base).members.map Prod.snd).Perm (d.memberIds ns base) := by
  have hnodup : ((d.scaleSnapshot h ns base).members.map Prod.snd).Nodup := by
    rw [((perm_members h d ns base).map _).nodup_iff, List.map_map]
    exact ((h.nodup_keys_iter d.processes.entries).sublist
      ((List.filter_sublist).map Prod.fst))
  apply (List.perm_ext_iff_of_nodup hnodup (nodup_memberIds d ns base)).mpr
  intro id
  rw [mem_memberIds, List.mem_map]
  constructor
  · rintro ⟨m, hm, rfl⟩
    obtain ⟨p, hp, hmem, -⟩ := mem_members.mp hm
    exact ⟨p, hp, hmem⟩
  · rintro ⟨p, hp, hmem⟩
    exact ⟨(p.info.name, id), mem_members.mpr ⟨p, hp, hmem, rfl⟩, rfl⟩

theorem length_members (h : Host) (d : Daemon) (ns base : String) :
    (d.scaleSnapshot h ns base).members.length = (d.memberIds ns base).length := by
  rw [← (perm_memberIds h d ns base).length_eq, List.length_map]

theorem member_of_template {template : AppSpec}
    (ht : (d.scaleSnapshot h ns base).template = some template) :
    ∃ id ∈ d.memberIds ns base, ∃ p, d.processes.lookup id = some p ∧ p.spec = template := by
  obtain ⟨m, hm, hmap⟩ := Option.bind_eq_some_iff.mp ht
  obtain ⟨p, hp, rfl⟩ := Option.map_eq_some_iff.mp hmap
  obtain ⟨q, hq, hmem, -⟩ := mem_members.mp (List.mem_of_mem_head? hm)
  exact ⟨m.2, mem_memberIds.mpr ⟨q, hq, hmem⟩, p, hp, rfl⟩

/-! ### Runs of creations -/

/-- The daemon has gone from `d` to `d'` by registering the specs, all under new ids. -/
structure Registers (d d' : Daemon) (specs : List AppSpec) : Prop where
  nodup : (specs.map AppSpec.id).Nodup
  fresh : ∀ s ∈ specs, d.processes.lookup s.id = none
  added : ∀ s ∈ specs, ∃ p, d'.processes.lookup s.id = some p ∧ p.spec = s
  others : ∀ id, id ∉ specs.map AppSpec.id → d'.processes.lookup id = d.processes.lookup id

theorem lookup_of_startWithSpec_ok {s : AppSpec} {i : ProcessInfo}
    (hs : d.startWithSpec h s = (d', .ok i)) :
    d.processes.lookup s.id = none ∧ ∃ p, p.spec = s ∧
      d'.processes.lookup = Function.update d.processes.lookup s.id (some p) := by
  obtain ⟨p, hp, he⟩ : d.CanStart h s := startWithSpec_ok_iff.mp ⟨i, by rw [hs]⟩
  obtain ⟨hnone, hnew⟩ := admission_ok hp
  obtain ⟨rfl, -⟩ := Process.new_ok hnew
  rw [startWithSpec_of_canStart hp he] at hs
  obtain ⟨rfl, -⟩ := Prod.mk.inj hs
  refine ⟨hnone, p.started h (h.newPid d.os.pids), rfl, ?_⟩
  rw [put_lookup, Process.started_id, p.id_eq]

theorem lookup_of_createInstance_ok {s : AppSpec} (hs : d.createInstance h s = (d', .ok ())) :
    d.processes.lookup s.id = none ∧ ∃ p, p.spec = s ∧
      d'.processes.lookup = Function.update d.processes.lookup s.id (some p) := by
  unfold createInstance at hs
  split at hs
  · cases congrArg Prod.snd hs
  · rename_i dir _ _
    split at hs
    · cases congrArg Prod.snd hs
    · rename_i hstart
      obtain ⟨rfl, -⟩ := Prod.mk.inj hs
      exact lookup_of_startWithSpec_ok (d := { d with specDir := dir }) hstart

/-- One more spec before the others. -/
theorem Registers.cons {d₁ : Daemon} {s : AppSpec} {specs : List AppSpec} {p : Process}
    (hnone : d.processes.lookup s.id = none) (hspec : p.spec = s)
    (hlk : d₁.processes.lookup = Function.update d.processes.lookup s.id (some p))
    (hr : Registers d₁ d' specs) : Registers d d' (s :: specs) := by
  have hid : s.id ∉ specs.map AppSpec.id := by
    intro hm
    obtain ⟨t, ht, hts⟩ := List.mem_map.mp hm
    have := hr.fresh t ht
    rw [hlk, hts, Function.update_self] at this
    cases this
  refine ⟨List.nodup_cons.mpr ⟨hid, hr.nodup⟩, ?_, ?_, fun id hnot => ?_⟩
  · intro t ht
    rcases List.mem_cons.mp ht with rfl | ht
    · exact hnone
    · have hne : t.id ≠ s.id := fun e => hid (e ▸ List.mem_map_of_mem ht)
      have := hr.fresh t ht
      rwa [hlk, Function.update_of_ne hne] at this
  · intro t ht
    rcases List.mem_cons.mp ht with rfl | ht
    · refine ⟨p, ?_, hspec⟩
      rw [hr.others _ hid, hlk, Function.update_self]
    · exact hr.added t ht
  · rw [List.map_cons, List.mem_cons, not_or] at hnot
    rw [hr.others id hnot.2, hlk, Function.update_of_ne hnot.1]

theorem registers_nil (d : Daemon) : Registers d d [] where
  nodup := List.nodup_nil
  fresh := by simp
  added := by simp
  others _ _ := rfl

theorem registers_of_untilError {l : List (Host × AppSpec)}
    (hs : untilError (fun d x => d.createInstance x.1 x.2) d l = (d', .ok ())) :
    Registers d d' (l.map Prod.snd) := by
  apply untilError_ok (fun d l d' => Registers d d' (l.map Prod.snd)) registers_nil _ hs
  rintro d ⟨h, s⟩ l d₁ d' h1 hr
  obtain ⟨hnone, p, hspec, hlk⟩ := lookup_of_createInstance_ok h1
  exact hr.cons hnone hspec hlk

/-- The specs of the instances a scale-up creates. -/
def newSpecs (h : Host) (template : AppSpec) (ns : String) (names : List String) : List AppSpec :=
  names.zipIdx.map fun n => instanceSpec template (h.newId n.2) n.1 ns

theorem registers_of_createInstances {template : AppSpec} {names : List String}
    (hc : createInstances h template ns d names = (d', .ok ())) :
    Registers d d' (newSpecs h template ns names) := by
  have hl : ((newSpecs h template ns names).map (Prod.mk h)).map Prod.snd =
      newSpecs h template ns names := by
    rw [List.map_map]
    exact List.map_id _
  rw [← hl]
  apply registers_of_untilError
  rw [newSpecs, untilError_map, untilError_map]
  exact hc

theorem map_name_newSpecs (h : Host) (template : AppSpec) (ns : String) (names : List String) :
    (newSpecs h template ns names).map AppSpec.name = names := by
  rw [newSpecs, List.map_map]
  exact List.zipIdx_map_fst ..

/-! ### Runs of deletions -/

/-- The daemon has gone from `d` to `d'` by dropping the entries of the ids. -/
structure Removes (d d' : Daemon) (ids : List String) : Prop where
  present : ∀ id ∈ ids, ∃ p, d.processes.lookup id = some p
  gone : ∀ id ∈ ids, d'.processes.lookup id = none
  others : ∀ id, id ∉ ids → d'.processes.lookup id = d.processes.lookup id

theorem removes_of_deleteAll {ids : List String} (hd : d.deleteAll h ids = (d', .ok ())) :
    Removes d d' ids := by
  apply untilError_ok (fun d ids d' => Removes d d' ids) _ _ hd
  · intro d
    exact ⟨by simp, by simp, fun _ _ => rfl⟩
  · intro d id ids d₁ d' h1 hr
    have hlk : d₁.processes.lookup = Function.update d.processes.lookup id none := by
      have hd₁ : d₁ = (d.delete h id).1 := by rw [← deleteInstance_fst, h1]
      rw [hd₁, delete_lookup]
    have hp : ∃ p, d.processes.lookup id = some p := by
      cases hp : d.processes.lookup id with
      | some p => exact ⟨p, rfl⟩
      | none =>
          rw [deleteInstance, delete_of_none hp] at h1
          cases congrArg Prod.snd h1
    refine ⟨?_, ?_, fun k hk => ?_⟩
    · intro k hk
      rcases List.mem_cons.mp hk with rfl | hk
      · exact hp
      · by_cases hkid : k = id
        · exact hkid ▸ hp
        · have := hr.present k hk
          rwa [hlk, Function.update_of_ne hkid] at this
    · intro k hk
      rcases List.mem_cons.mp hk with rfl | hk
      · by_cases hkids : k ∈ ids
        · exact hr.gone k hkids
        · rw [hr.others k hkids, hlk, Function.update_self]
      · exact hr.gone k hk
    · rw [List.mem_cons, not_or] at hk
      rw [hr.others k hk.2, hlk, Function.update_of_ne hk.1]

/-! ### What the two runs do to the members -/

/-- The names of the entries of `d` that `d'` does not have. -/
def namesOnlyIn (d d' : Daemon) : List String :=
  (d.processes.entries.keys.filter fun id => (d'.processes.lookup id).isNone).filterMap fun id =>
    (d.processes.lookup id).map fun p => p.info.name

theorem namesOnlyIn_perm {ids : List String} (hnd : ids.Nodup)
    (hids : ∀ id, id ∈ ids ↔ (∃ p, d.processes.lookup id = some p) ∧
      d'.processes.lookup id = none) :
    (namesOnlyIn d d').Perm
      (ids.filterMap fun id => (d.processes.lookup id).map fun p => p.info.name) := by
  apply List.Perm.filterMap
  apply (List.perm_ext_iff_of_nodup (d.processes.entries.keys_nodup.filter _) hnd).mpr
  intro id
  rw [List.mem_filter, mem_keys, hids, Option.isNone_iff_eq_none]

theorem namesOnlyIn_eq_nil (hall : ∀ id, d'.processes.lookup id = none →
    d.processes.lookup id = none) : namesOnlyIn d d' = [] := by
  rw [namesOnlyIn, List.filter_eq_nil_iff.mpr, List.filterMap_nil]
  intro id hid hn
  obtain ⟨p, hp⟩ := mem_keys.mp hid
  rw [hall id (Option.isNone_iff_eq_none.mp hn)] at hp
  cases hp

theorem Registers.mem_iff {specs : List AppSpec} (hr : Registers d d' specs) (id : String) :
    id ∈ specs.map AppSpec.id ↔
      (∃ p, d'.processes.lookup id = some p) ∧ d.processes.lookup id = none := by
  constructor
  · intro hm
    obtain ⟨s, hs, rfl⟩ := List.mem_map.mp hm
    obtain ⟨p, hp, -⟩ := hr.added s hs
    exact ⟨⟨p, hp⟩, hr.fresh s hs⟩
  · rintro ⟨⟨p, hp⟩, hnone⟩
    by_contra hm
    rw [hr.others id hm, hnone] at hp
    cases hp

theorem Registers.lookup_of_some {specs : List AppSpec} (hr : Registers d d' specs) {id : String}
    {p : Process} (hp : d.processes.lookup id = some p) : d'.processes.lookup id = some p := by
  rw [hr.others id, hp]
  intro hm
  rw [((hr.mem_iff id).mp hm).2] at hp
  cases hp

theorem Registers.names {specs : List AppSpec} (hr : Registers d d' specs) :
    (namesOnlyIn d' d).Perm (specs.map displayName) ∧ namesOnlyIn d d' = [] := by
  constructor
  · refine (namesOnlyIn_perm hr.nodup hr.mem_iff).trans (List.Perm.of_eq ?_)
    rw [List.filterMap_map, ← List.filterMap_eq_map]
    apply List.filterMap_congr
    intro s hs
    obtain ⟨p, hp, rfl⟩ := hr.added s hs
    simp only [Function.comp_apply, hp, Option.map_some, p.name_eq]
  · apply namesOnlyIn_eq_nil
    intro id hn
    cases hp : d.processes.lookup id with
    | none => rfl
    | some p => rw [hr.lookup_of_some hp] at hn; cases hn

theorem Registers.length_memberIds {specs : List AppSpec} (hr : Registers d d' specs)
    (hm : ∀ p : Process, p.spec ∈ specs → isMember ns base p = true) :
    (d'.memberIds ns base).length = specs.length + (d.memberIds ns base).length := by
  have hdisj : (specs.map AppSpec.id).Disjoint (d.memberIds ns base) := by
    intro id h1 h2
    obtain ⟨p, hp, -⟩ := mem_memberIds.mp h2
    rw [((hr.mem_iff id).mp h1).2] at hp
    cases hp
  have hperm : (d'.memberIds ns base).Perm (specs.map AppSpec.id ++ d.memberIds ns base) := by
    apply (List.perm_ext_iff_of_nodup (nodup_memberIds ..)
      (List.nodup_append'.mpr ⟨hr.nodup, nodup_memberIds .., hdisj⟩)).mpr
    intro id
    rw [List.mem_append, mem_memberIds, mem_memberIds]
    by_cases hid : id ∈ specs.map AppSpec.id
    · obtain ⟨s, hs, rfl⟩ := List.mem_map.mp hid
      obtain ⟨p, hp, rfl⟩ := hr.added s hs
      exact ⟨fun _ => .inl hid, fun _ => ⟨p, hp, hm p hs⟩⟩
    · rw [hr.others id hid]
      simp only [hid, false_or]
  rw [hperm.length_eq, List.length_append, List.length_map]

theorem Removes.mem_iff {ids : List String} (hr : Removes d d' ids) (id : String) :
    id ∈ ids ↔ (∃ p, d.processes.lookup id = some p) ∧ d'.processes.lookup id = none := by
  constructor
  · intro hm
    exact ⟨hr.present id hm, hr.gone id hm⟩
  · rintro ⟨⟨p, hp⟩, hnone⟩
    by_contra hm
    rw [hr.others id hm, hp] at hnone
    cases hnone

theorem Removes.length_memberIds {ids : List String} (hr : Removes d d' ids) (hnd : ids.Nodup)
    (hm : ∀ id ∈ ids, id ∈ d.memberIds ns base) :
    (d.memberIds ns base).length = ids.length + (d'.memberIds ns base).length := by
  have hdisj : ids.Disjoint (d'.memberIds ns base) := by
    intro id h1 h2
    obtain ⟨p, hp, -⟩ := mem_memberIds.mp h2
    rw [hr.gone id h1] at hp
    cases hp
  have hperm : (d.memberIds ns base).Perm (ids ++ d'.memberIds ns base) := by
    apply (List.perm_ext_iff_of_nodup (nodup_memberIds ..)
      (List.nodup_append'.mpr ⟨hnd, nodup_memberIds .., hdisj⟩)).mpr
    intro id
    rw [List.mem_append]
    by_cases hid : id ∈ ids
    · exact ⟨fun _ => .inl hid, fun _ => hm id hid⟩
    · rw [mem_memberIds, mem_memberIds, hr.others id hid]
      simp only [hid, false_or]
  rw [hperm.length_eq, List.length_append]

/-! ### Requests that succeed -/

/-- What a request to scale is to do.  `kept` and `added` say that nothing changes but the entries
that match. -/
structure ScaleDone (d d' : Daemon) (ns base : String) (target : ℕ) (res : ScaleResponse) :
    Prop where
  count : (d'.memberIds ns base).length = target
  before : res.before = (d.memberIds ns base).length
  after : res.after = (d'.memberIds ns base).length
  created : (res.created.getD []).Perm (namesOnlyIn d' d)
  deleted : (res.deleted.getD []).Perm (namesOnlyIn d d')
  nodup : (res.created.getD []).Nodup
  fresh : ∀ name ∈ res.created.getD [], (∃ k < 2 ^ 32, name = instanceName base k) ∧
    ∀ id p, d.processes.lookup id = some p → p.info.ns = ns → p.info.name ≠ name
  kept : ∀ id p, d.processes.lookup id = some p →
    d'.processes.lookup id = some p ∨
      (d'.processes.lookup id = none ∧ isMember ns base p = true)
  added : ∀ id p, d.processes.lookup id = none → d'.processes.lookup id = some p →
    isMember ns base p = true

theorem scaleNs_ne_empty (ns : String) : scaleNs ns ≠ "" := by
  unfold scaleNs
  split
  · decide
  · assumption

theorem isMember_of_name {p : Process} {k : ℕ} (hns : p.info.ns = ns)
    (hname : p.info.name = instanceName base k) (hk : k < 2 ^ 32) : isMember ns base p = true := by
  simp [isMember, hns, hname, isInstanceName_eq, indexOf_instanceName base hk]

theorem instanceName_ne_empty (base : String) (k : ℕ) : instanceName base k ≠ "" := by
  intro he
  have := congrArg String.toList he
  rw [toList_instanceName] at this
  simp at this

theorem info_of_instanceSpec {template : AppSpec} {id name : String} {p : Process}
    (hp : p.spec = instanceSpec template id name ns) (hns : ns ≠ "") (hname : name ≠ "") :
    p.info.name = name ∧ p.info.ns = ns := by
  rw [p.name_eq, p.ns_eq, hp]
  refine ⟨if_pos hname, ?_⟩
  show (nonEmpty (some ns)).getD defaultNamespace = ns
  simp [nonEmpty, Option.filter, hns]

section request

variable {target : ℕ} {res : ScaleResponse}

/-- The state and the answer of a request to scale that succeeds. -/
theorem scale_ok_cases (hs : d.scale h ns base target = (d', .ok res)) :
    let members := (d.scaleSnapshot h (scaleNs ns) base).members
    let res₀ : ScaleResponse :=
      { baseName := base, ns := scaleNs ns, before := members.length, after := target }
    target ≤ 1024 ∧
      ((target = members.length ∧ d' = d ∧ res = res₀) ∨
       (target < members.length ∧
          d.deleteAll h ((members.drop target).map Prod.snd).reverse = (d', .ok ()) ∧
          res = { res₀ with deleted := some ((members.drop target).map Prod.fst) }) ∨
       ∃ template, members.length < target ∧
          (d.scaleSnapshot h (scaleNs ns) base).template = some template ∧
          createInstances h template (scaleNs ns) d
            (newNames base (target - members.length) (members.map Prod.fst) 1) = (d', .ok ()) ∧
          res = { res₀ with
            created := some (newNames base (target - members.length)
              (members.map Prod.fst) 1) }) := by
  intro members res₀
  unfold scale at hs
  split at hs
  · cases congrArg Prod.snd hs
  · refine ⟨by omega, ?_⟩
    simp only at hs
    split at hs
    · obtain ⟨rfl, hr⟩ := Prod.mk.inj hs
      exact .inl ⟨‹_›, rfl, (Except.ok.inj hr).symm⟩
    · split at hs
      · refine .inr (.inl ⟨‹_›, ?_⟩)
        split at hs
        · cases congrArg Prod.snd hs
        · rename_i hdel
          obtain ⟨rfl, hr⟩ := Prod.mk.inj hs
          exact ⟨hdel, (Except.ok.inj hr).symm⟩
      · split at hs
        · cases congrArg Prod.snd hs
        · rename_i template ht
          have hlt : (d.scaleSnapshot h (scaleNs ns) base).members.length < target := by omega
          refine .inr (.inr ⟨template, hlt, ht, ?_⟩)
          split at hs
          · cases congrArg Prod.snd hs
          · rename_i hc
            obtain ⟨rfl, hr⟩ := Prod.mk.inj hs
            exact ⟨hc, (Except.ok.inj hr).symm⟩

theorem scaleDone_self (hres : res.before = (d.memberIds ns base).length)
    (hafter : res.after = (d.memberIds ns base).length) (hc : res.created = none)
    (hd : res.deleted = none) : ScaleDone d d ns base (d.memberIds ns base).length res where
  count := rfl
  before := hres
  after := hafter
  created := by rw [hc, namesOnlyIn_eq_nil fun _ hn => hn]; rfl
  deleted := by rw [hd, namesOnlyIn_eq_nil fun _ hn => hn]; rfl
  nodup := by rw [hc]; exact List.nodup_nil
  fresh := by rw [hc]; simp
  kept _ _ hp := .inl hp
  added _ _ hn hp := by rw [hn] at hp; cases hp

/-- The ids a scale-down deletes, in its order: from the end of the snapshot. -/
def victims (h : Host) (d : Daemon) (ns base : String) (target : ℕ) : List String :=
  (((d.scaleSnapshot h ns base).members.drop target).map Prod.snd).reverse

theorem nodup_victims : (d.victims h ns base target).Nodup := by
  rw [victims, List.nodup_reverse, List.map_drop]
  exact ((perm_memberIds h d ns base).nodup_iff.mpr (nodup_memberIds ..)).sublist
    (List.drop_sublist ..)

theorem mem_memberIds_of_victims {id : String} (hid : id ∈ d.victims h ns base target) :
    id ∈ d.memberIds ns base := by
  rw [victims, List.mem_reverse, List.map_drop] at hid
  exact (perm_memberIds h d ns base).mem_iff.mp (List.mem_of_mem_drop hid)

/-- A request that scales down. -/
theorem scaleDone_of_removes {members : List (String × String)}
    (hm : members = (d.scaleSnapshot h ns base).members) (hlt : target < members.length)
    (hr : Removes d d' (d.victims h ns base target)) :
    ScaleDone d d' ns base target
      { baseName := base, ns := ns, before := members.length, after := target
        deleted := some ((members.drop target).map Prod.fst) } := by
  have hlen : (d.memberIds ns base).length = members.length := by
    rw [hm, length_members]
  have hcount := hr.length_memberIds nodup_victims fun id => mem_memberIds_of_victims
  rw [hlen, victims, ← hm, List.length_reverse, List.length_map, List.length_drop] at hcount
  have hnone : ∀ id, d.processes.lookup id = none → d'.processes.lookup id = none := by
    intro id hn
    rw [hr.others id, hn]
    intro hid
    obtain ⟨p, hp⟩ := hr.present id hid
    rw [hn] at hp
    cases hp
  refine ⟨by omega, hlen.symm, by simp only; omega, ?_, ?_, List.nodup_nil, by simp, ?_, ?_⟩
  · rw [namesOnlyIn_eq_nil hnone]
    rfl
  · refine List.Perm.symm ((namesOnlyIn_perm nodup_victims hr.mem_iff).trans ?_)
    refine ((List.reverse_perm _).filterMap _).trans (List.Perm.of_eq ?_)
    rw [← hm, List.filterMap_map, Option.getD_some, ← List.filterMap_eq_map]
    apply List.filterMap_congr
    intro m hmem
    rw [hm] at hmem
    obtain ⟨p, hp, -, hname⟩ := mem_members.mp (List.mem_of_mem_drop hmem)
    simp only [Function.comp_apply, hp, Option.map_some, hname]
  · intro id p hp
    by_cases hid : id ∈ d.victims h ns base target
    · obtain ⟨q, hq, hmem⟩ := mem_memberIds.mp (mem_memberIds_of_victims hid)
      rw [hp] at hq
      obtain rfl := Option.some.inj hq
      exact .inr ⟨hr.gone id hid, hmem⟩
    · exact .inl (by rw [hr.others id hid, hp])
  · intro id p hn hp
    rw [hnone id hn] at hp
    cases hp

/-- The names a scale-up gives: all of the form `base-k`, none in use in the namespace. -/
theorem newNames_of_members {members : List (String × String)} {names : List String}
    (hm : members = (d.scaleSnapshot h ns base).members) (hlt : members.length < target)
    (ht : target ≤ 1024)
    (hn : names = newNames base (target - members.length) (members.map Prod.fst) 1) :
    names.Nodup ∧ ∀ name ∈ names, (∃ k < 2 ^ 32, name = instanceName base k) ∧
      ∀ id p, d.processes.lookup id = some p → p.info.ns = ns → p.info.name ≠ name := by
  subst hn
  obtain ⟨hnd, hall⟩ := newNames_spec base (target - members.length) (members.map Prod.fst) 1
  refine ⟨hnd, fun name hname => ?_⟩
  obtain ⟨hnot, k, hk, rfl⟩ := hall name hname
  have hbound : (target - members.length) * ((members.map Prod.fst).length +
      (target - members.length)) ≤ 1024 * 1024 := by
    apply Nat.mul_le_mul
    · omega
    · rw [List.length_map]
      omega
  have hk32 : k < 2 ^ 32 := by omega
  refine ⟨⟨k, hk32, rfl⟩, fun id p hp hns he => hnot ?_⟩
  have hmem : (p.info.name, id) ∈ members := by
    rw [hm]
    exact mem_members.mpr ⟨p, hp, isMember_of_name hns he hk32, rfl⟩
  exact List.mem_map.mpr ⟨_, hmem, he⟩

theorem displayName_newSpecs {template : AppSpec} {names : List String}
    (hall : ∀ name ∈ names, ∃ k < 2 ^ 32, name = instanceName base k) :
    (newSpecs h template ns names).map displayName = names := by
  refine Eq.trans ?_ (map_name_newSpecs h template ns names)
  apply List.map_congr_left
  intro s hs
  obtain ⟨k, -, hk⟩ := hall s.name (by
    rw [← map_name_newSpecs h template ns names]
    exact List.mem_map_of_mem hs)
  have hne : s.name ≠ "" := by
    rw [hk]
    exact instanceName_ne_empty base k
  simp [displayName, hne]

theorem mem_newSpecs {template s : AppSpec} {names : List String}
    (hs : s ∈ newSpecs h template ns names) :
    ∃ name ∈ names, ∃ id, s = instanceSpec template id name ns := by
  obtain ⟨n, hn, rfl⟩ := List.mem_map.mp hs
  exact ⟨n.1, List.fst_mem_of_mem_zipIdx hn, _, rfl⟩

/-- A request that scales up. -/
theorem scaleDone_of_registers {members : List (String × String)} {names : List String}
    {template : AppSpec} (hm : members = (d.scaleSnapshot h ns base).members) (hns : ns ≠ "")
    (hlt : members.length < target) (ht : target ≤ 1024)
    (hn : names = newNames base (target - members.length) (members.map Prod.fst) 1)
    (hr : Registers d d' (newSpecs h template ns names)) :
    ScaleDone d d' ns base target
      { baseName := base, ns := ns, before := members.length, after := target
        created := some names } := by
  obtain ⟨hnd, hall⟩ := newNames_of_members hm hlt ht hn
  have hmember : ∀ p : Process, p.spec ∈ newSpecs h template ns names →
      isMember ns base p = true := by
    intro p hp
    obtain ⟨name, hname, id, hspec⟩ := mem_newSpecs hp
    obtain ⟨⟨k, hk, rfl⟩, -⟩ := hall name hname
    obtain ⟨h1, h2⟩ := info_of_instanceSpec hspec hns (instanceName_ne_empty base k)
    exact isMember_of_name h2 h1 hk
  have hlen : (d.memberIds ns base).length = members.length := by
    rw [hm, length_members]
  have hcount := hr.length_memberIds hmember
  have hspecs : (newSpecs h template ns names).length = target - members.length := by
    rw [newSpecs, List.length_map, List.length_zipIdx, hn, length_newNames]
  obtain ⟨hcreated, hnone⟩ := hr.names
  rw [displayName_newSpecs fun name hname => (hall name hname).1] at hcreated
  refine ⟨by omega, hlen.symm, by simp only; omega, hcreated.symm, ?_, hnd, hall, ?_, ?_⟩
  · rw [hnone]
    rfl
  · intro id p hp
    exact .inl (hr.lookup_of_some hp)
  · intro id p hn hp
    obtain ⟨s, hs, rfl⟩ := List.mem_map.mp ((hr.mem_iff id).mpr ⟨⟨p, hp⟩, hn⟩)
    obtain ⟨q, hq, hspec⟩ := hr.added s hs
    rw [hp] at hq
    obtain rfl := Option.some.inj hq
    exact hmember p (hspec ▸ hs)

/-- **Scaling.** A request that succeeds leaves exactly `target` matching entries, reports exactly
what it added and removed, and touches nothing else; this in every order the map is read in. -/
theorem scale_done (hs : d.scale h ns base target = (d', .ok res)) :
    ScaleDone d d' (scaleNs ns) base target res := by
  obtain ⟨ht, ⟨he, rfl, rfl⟩ | ⟨hlt, hdel, rfl⟩ | ⟨template, hlt, -, hc, rfl⟩⟩ := scale_ok_cases hs
  · rw [length_members] at he
    subst he
    exact scaleDone_self (length_members ..) rfl rfl rfl
  · exact scaleDone_of_removes rfl hlt (removes_of_deleteAll hdel)
  · exact scaleDone_of_registers rfl (scaleNs_ne_empty ns) hlt ht rfl
      (registers_of_createInstances hc)

end request

/-- A daemon with one process called `api`. -/
def oneApi : Daemon := ((fresh 0 none ∅).startWithSpec userHost (plainSpec demoId)).1

theorem scale_oneApi_result : (oneApi.scale userHost "" "api" 3).2 =
    .ok { baseName := "api", ns := "default", before := 1, after := 3,
          created := some ["api-1", "api-2"] } := by decide +kernel

/-- Three instances where there was one. -/
theorem scale_done_oneApi :
    ScaleDone oneApi (oneApi.scale userHost "" "api" 3).1 "default" "api" 3
      { baseName := "api", ns := "default", before := 1, after := 3,
        created := some ["api-1", "api-2"] } :=
  scale_done (show oneApi.scale userHost "" "api" 3 = (_, .ok _) from
    Prod.ext rfl scale_oneApi_result)

end Daemon

end Unitpm
