import Mathlib.Order.WithBot
import Unitpm.Scaling

/-! # Which instances a scale-down removes

A scale-down keeps the first `target` members of the snapshot and deletes the rest.  What is called
`base` is first in the snapshot; the numbered instances follow in the order the map of processes
happens to be read in, which has nothing to do with their numbers.

`KeepsLowest` says that in every order the members with the lowest indices survive.  It holds
exactly where the order cannot matter: nothing survives, or only `base` does, or no two numbered
instances differ in their index (`keepsLowest_iff`). -/

namespace Unitpm

open Run

/-- The machine with another order of reading maps. -/
def Host.withOrder (h : Host) (order : List String → List String)
    (perm : ∀ l, (order l).Perm l) : Host :=
  { h with hashOrder := order, hashOrder_perm := perm }

namespace Daemon

variable {h : Host} {d d' : Daemon} {ns base : String} {target : ℕ}

/-! ### Deletions of registered ids -/

theorem deleteInstance_of_lookup {id : String} {p : Process}
    (hp : d.processes.lookup id = some p) :
    d.deleteInstance h id = ((d.delete h id).1, .ok ()) := by
  rw [deleteInstance, delete_of_lookup hp]

theorem deleteAll_ok {ids : List String} (hnd : ids.Nodup)
    (hids : ∀ id ∈ ids, ∃ p, d.processes.lookup id = some p) :
    ∃ d', d.deleteAll h ids = (d', .ok ()) := by
  unfold deleteAll
  induction ids generalizing d with
  | nil => exact ⟨d, rfl⟩
  | cons id ids ih =>
      obtain ⟨hid, hnd⟩ := List.nodup_cons.mp hnd
      obtain ⟨p, hp⟩ := hids id (by simp)
      rw [untilError, deleteInstance_of_lookup hp]
      apply ih hnd
      intro k hk
      have hne : k ≠ id := fun e => hid (e ▸ hk)
      rw [delete_lookup, Function.update_of_ne hne]
      exact hids k (by simp [hk])

theorem scale_down (ht : target ≤ 1024)
    (hlt : target < (d.scaleSnapshot h (scaleNs ns) base).members.length) :
    ∃ d' res, d.scale h ns base target = (d', .ok res) ∧
      Removes d d' (d.victims h (scaleNs ns) base target) := by
  have hpresent : ∀ id ∈ d.victims h (scaleNs ns) base target,
      ∃ p, d.processes.lookup id = some p := by
    intro id hid
    obtain ⟨p, hp, -⟩ := mem_memberIds.mp (mem_memberIds_of_victims hid)
    exact ⟨p, hp⟩
  obtain ⟨d', hd⟩ := deleteAll_ok (h := h) nodup_victims hpresent
  have hscale : ∃ res, d.scale h ns base target = (d', .ok res) := by
    unfold scale
    rw [if_neg (by omega)]
    simp only
    rw [if_neg (by omega), if_pos hlt, ← victims, hd]
    exact ⟨_, rfl⟩
  obtain ⟨res, hres⟩ := hscale
  exact ⟨d', res, hres, removes_of_deleteAll hd⟩

/-! ### Ranks -/

/-- The index of an instance; `base` itself comes before every number. -/
def rank (base name : String) : WithBot ℕ := indexOf base name

theorem rank_base (base : String) : rank base base = ⊥ := by
  have : Rust.Str.stripPrefix? (base ++ "-") base = none := by
    rw [Rust.Str.stripPrefix?, if_neg]
    intro hs
    have hlen := (List.isPrefixOf_iff_prefix.mp hs).length_le
    simp at hlen
  rw [rank, indexOf, this]
  rfl

/-- The numbered instances: every member but `base`. -/
def isNumbered (ns base : String) (p : Process) : Bool :=
  isMember ns base p && !(p.info.name == base)

/-- In every order of reading the map, the request succeeds and what survives it ranks no higher
than what is removed. -/
def KeepsLowest (h : Host) (d : Daemon) (ns base : String) (target : ℕ) : Prop :=
  ∀ order perm, ∃ d' res, d.scale (h.withOrder order perm) ns base target = (d', .ok res) ∧
    (d'.memberIds (scaleNs ns) base).length = target ∧
    ∀ a b p q, d.processes.lookup a = some p → isMember (scaleNs ns) base p = true →
      d.processes.lookup b = some q → isMember (scaleNs ns) base q = true →
      d'.processes.lookup a = some p → d'.processes.lookup b = none →
      rank base p.info.name ≤ rank base q.info.name

/-- The matching entries have distinct names. -/
def DistinctNames (d : Daemon) (ns base : String) : Prop :=
  ∀ a b p q, d.processes.lookup a = some p → isMember ns base p = true →
    d.processes.lookup b = some q → isMember ns base q = true → p.info.name = q.info.name → a = b

/-! ### The snapshot in two parts -/

/-- What is called `base` in the snapshot. -/
def baseMembers (h : Host) (d : Daemon) (ns base : String) : List (String × String) :=
  (((h.iter d.processes.entries).filter fun e => isMember ns base e.2).filter
    fun e => e.2.info.name == base).reverse.map member

/-- The numbered instances of the snapshot. -/
def numberedMembers (h : Host) (d : Daemon) (ns base : String) : List (String × String) :=
  (((h.iter d.processes.entries).filter fun e => isMember ns base e.2).filter
    fun e => !(e.2.info.name == base)).map member

theorem members_eq (h : Host) (d : Daemon) (ns base : String) :
    (d.scaleSnapshot h ns base).members =
      d.baseMembers h ns base ++ d.numberedMembers h ns base := by
  rw [scaleSnapshot, foldl_addMember, List.append_nil]
  rfl

theorem mem_baseMembers {m : String × String} (hm : m ∈ d.baseMembers h ns base) :
    m.1 = base := by
  obtain ⟨e, he, rfl⟩ := List.mem_map.mp hm
  rw [List.mem_reverse, List.mem_filter] at he
  exact beq_iff_eq.mp he.2

theorem mem_numberedMembers {m : String × String} (hm : m ∈ d.numberedMembers h ns base) :
    m.1 ≠ base := by
  obtain ⟨e, he, rfl⟩ := List.mem_map.mp hm
  rw [List.mem_filter] at he
  simpa [member] using he.2

/-- At most one member is called `base`. -/
theorem length_baseMembers_le (hd : d.DistinctNames ns base) :
    (d.baseMembers h ns base).length ≤ 1 := by
  have hnd : ((d.baseMembers h ns base).map Prod.snd).Nodup := by
    have := (perm_memberIds h d ns base).nodup_iff.mpr (nodup_memberIds ..)
    rw [members_eq, List.map_append] at this
    exact (List.nodup_append'.mp this).1
  have hall : ∀ m ∈ d.baseMembers h ns base, m.1 = base ∧ ∃ p, d.processes.lookup m.2 = some p ∧
      isMember ns base p = true ∧ p.info.name = m.1 := by
    intro m hm
    refine ⟨mem_baseMembers hm, mem_members (h := h) |>.mp ?_⟩
    rw [members_eq]
    exact List.mem_append_left _ hm
  match hb : d.baseMembers h ns base with
  | [] => simp
  | [m] => simp
  | m :: m' :: l =>
      rw [hb] at hnd hall
      obtain ⟨h1, p, hp, hpm, hpn⟩ := hall m (by simp)
      obtain ⟨h2, q, hq, hqm, hqn⟩ := hall m' (by simp)
      have := hd m.2 m'.2 p q hp hpm hq hqm (by rw [hpn, hqn, h1, h2])
      simp [this] at hnd

/-! ### Survivors and victims -/

theorem mem_victims {id : String} :
    id ∈ d.victims h ns base target ↔
      ∃ name, (name, id) ∈ (d.scaleSnapshot h ns base).members.drop target := by
  rw [victims, List.mem_reverse, List.mem_map]
  constructor
  · rintro ⟨m, hm, rfl⟩
    exact ⟨m.1, hm⟩
  · rintro ⟨name, hm⟩
    exact ⟨_, hm, rfl⟩

theorem mem_take_of_not_victim {id : String} {p : Process} (hp : d.processes.lookup id = some p)
    (hm : isMember ns base p = true) (hid : id ∉ d.victims h ns base target) :
    (p.info.name, id) ∈ (d.scaleSnapshot h ns base).members.take target := by
  have hmem : (p.info.name, id) ∈ (d.scaleSnapshot h ns base).members :=
    mem_members.mpr ⟨p, hp, hm, rfl⟩
  rw [← List.take_append_drop target (d.scaleSnapshot h ns base).members] at hmem
  rcases List.mem_append.mp hmem with ht | hd
  · exact ht
  · exact absurd (mem_victims.mpr ⟨_, hd⟩) hid

theorem mem_drop_of_victim {id : String} {p : Process} (hp : d.processes.lookup id = some p)
    (hid : id ∈ d.victims h ns base target) :
    (p.info.name, id) ∈ (d.scaleSnapshot h ns base).members.drop target := by
  obtain ⟨name, hm⟩ := mem_victims.mp hid
  obtain ⟨q, hq, -, hname⟩ := mem_members.mp (List.mem_of_mem_drop hm)
  rw [hp] at hq
  obtain rfl := Option.some.inj hq
  rw [hname]
  exact hm

theorem numbered_of_drop (hd : d.DistinctNames ns base) (ht : target ≠ 0) {m : String × String}
    (hm : m ∈ (d.scaleSnapshot h ns base).members.drop target) :
    m ∈ d.numberedMembers h ns base := by
  have hlen := length_baseMembers_le (h := h) hd
  rw [members_eq, List.drop_append, List.drop_eq_nil_of_le (by omega), List.nil_append] at hm
  exact List.mem_of_mem_drop hm

/-- Where the order of the map cannot matter: nothing survives, or `base` alone, or the numbered
instances all have one index. -/
def OrderIrrelevant (d : Daemon) (ns base : String) (target : ℕ) : Prop :=
  target = 0 ∨
  (target = 1 ∧ ∃ id p, d.processes.lookup id = some p ∧ isMember ns base p = true ∧
    p.info.name = base) ∨
  ∀ a b p q, d.processes.lookup a = some p → isNumbered ns base p = true →
    d.processes.lookup b = some q → isNumbered ns base q = true →
    rank base p.info.name = rank base q.info.name

theorem base_of_take_one {id : String} {p : Process} (hp : d.processes.lookup id = some p)
    (hm : isMember ns base p = true) (hb : p.info.name = base) {m : String × String}
    (hmem : m ∈ (d.scaleSnapshot h ns base).members.take 1) : m.1 = base := by
  have hin : (p.info.name, id) ∈ d.baseMembers h ns base := by
    have : (p.info.name, id) ∈ (d.scaleSnapshot h ns base).members :=
      mem_members.mpr ⟨p, hp, hm, rfl⟩
    rw [members_eq] at this
    exact (List.mem_append.mp this).resolve_right fun hn => mem_numberedMembers hn hb
  have hlen : 1 ≤ (d.baseMembers h ns base).length := List.length_pos_of_mem hin
  rw [members_eq, List.take_append_of_le_length hlen] at hmem
  exact mem_baseMembers (List.mem_of_mem_take hmem)

theorem keepsLowest_of_orderIrrelevant (hd : d.DistinctNames (scaleNs ns) base)
    (ht : target ≤ 1024) (hlt : target < (d.memberIds (scaleNs ns) base).length)
    (hc : d.OrderIrrelevant (scaleNs ns) base target) : KeepsLowest h d ns base target := by
  intro order perm
  obtain ⟨d', res, hs, hr⟩ := scale_down (h := h.withOrder order perm) (d := d) ht
    (by rw [length_members]; exact hlt)
  refine ⟨d', res, hs, (scale_done hs).count, ?_⟩
  intro a b p q hp hpm hq hqm ha hb
  have hav : a ∉ d.victims (h.withOrder order perm) (scaleNs ns) base target := by
    intro hv
    rw [hr.gone a hv] at ha
    cases ha
  have hta := mem_take_of_not_victim hp hpm hav
  have hdb := mem_drop_of_victim hq ((hr.mem_iff b).mpr ⟨⟨q, hq⟩, hb⟩)
  by_cases hpb : p.info.name = base
  · rw [hpb, rank_base]
    exact bot_le
  · rcases hc with rfl | ⟨rfl, id, r, hrl, hrm, hrb⟩ | hall
    · simp at hta
    · exact absurd (base_of_take_one hrl hrm hrb hta) hpb
    · have ht0 : target ≠ 0 := by
        rintro rfl
        simp at hta
      have hqb : q.info.name ≠ base := mem_numberedMembers (numbered_of_drop hd ht0 hdb)
      exact le_of_eq (hall a b p q hp (by simp [isNumbered, hpm, hpb]) hq
        (by simp [isNumbered, hqm, hqb]))

/-! ### An order that keeps the wrong instance -/

/-- `b` is read first and `a` last. -/
def readLast (a b : String) (l : List String) : List String :=
  if a ∈ l ∧ b ∈ l.erase a then b :: ((l.erase a).erase b ++ [a]) else l

theorem readLast_perm (a b : String) (l : List String) : (readLast a b l).Perm l := by
  unfold readLast
  split
  · rename_i hab
    have h1 : (b :: ((l.erase a).erase b ++ [a])).Perm (l.erase a ++ [a]) :=
      (List.perm_cons_erase hab.2).symm.append_right [a]
    exact h1.trans ((List.perm_append_singleton ..).trans (List.perm_cons_erase hab.1).symm)
  · exact List.Perm.refl l

/-- In that order `b` is the first of the numbered instances and `a` the last. -/
theorem numberedMembers_readLast {a b : String} {p q : Process}
    (hp : d.processes.lookup a = some p) (hpn : isNumbered ns base p = true)
    (hq : d.processes.lookup b = some q) (hqn : isNumbered ns base q = true) (hab : a ≠ b) :
    ∃ mid, d.numberedMembers (h.withOrder (readLast a b) (readLast_perm a b)) ns base =
      (q.info.name, b) :: (mid ++ [(p.info.name, a)]) := by
  have ha : a ∈ d.processes.entries.keys := mem_keys.mpr ⟨p, hp⟩
  have hb : b ∈ d.processes.entries.keys.erase a :=
    (List.mem_erase_of_ne hab.symm).mpr (mem_keys.mpr ⟨q, hq⟩)
  have hp' : d.processes.entries.lookup a = some p := hp
  have hq' : d.processes.entries.lookup b = some q := hq
  simp only [isNumbered, Bool.and_eq_true] at hpn hqn
  unfold numberedMembers Host.iter Host.withOrder
  simp only [readLast, if_pos (And.intro ha hb), List.filterMap_cons, List.filterMap_append, hp',
    hq', Option.map_some, List.filterMap_nil, List.filter_cons, List.filter_append, hqn.1, hpn.1,
    if_true, List.filter_nil, hqn.2, hpn.2, List.map_cons, List.map_append, List.map_nil]
  exact ⟨_, rfl⟩

theorem nodup_members (h : Host) (d : Daemon) (ns base : String) :
    (d.scaleSnapshot h ns base).members.Nodup :=
  List.Nodup.of_map Prod.snd ((perm_memberIds h d ns base).nodup_iff.mpr (nodup_memberIds ..))

theorem length_baseMembers_lt (hd : d.DistinctNames ns base) (h0 : target ≠ 0)
    (h1 : target = 1 → ∀ id p, d.processes.lookup id = some p → isMember ns base p = true →
      p.info.name ≠ base) : (d.baseMembers h ns base).length < target := by
  have hle := length_baseMembers_le (h := h) hd
  by_contra hge
  have ht : target = 1 := by omega
  obtain ⟨m, hm⟩ := List.exists_mem_of_length_pos (l := d.baseMembers h ns base) (by omega)
  have hmem : m ∈ (d.scaleSnapshot h ns base).members := by
    rw [members_eq]
    exact List.mem_append_left _ hm
  obtain ⟨p, hp, hpm, hname⟩ := mem_members.mp hmem
  exact h1 ht m.2 p hp hpm (hname.trans (mem_baseMembers hm))

/-- Of two numbered instances the one that is read first survives and the one that is read last
does not. -/
theorem victims_readLast {a b : String} {p q : Process} (hd : d.DistinctNames ns base)
    (hp : d.processes.lookup a = some p) (hpn : isNumbered ns base p = true)
    (hq : d.processes.lookup b = some q) (hqn : isNumbered ns base q = true) (hab : a ≠ b)
    (hlt : target < (d.memberIds ns base).length) (h0 : target ≠ 0)
    (h1 : target = 1 → ∀ id p, d.processes.lookup id = some p → isMember ns base p = true →
      p.info.name ≠ base) :
    a ∈ d.victims (h.withOrder (readLast a b) (readLast_perm a b)) ns base target ∧
      b ∉ d.victims (h.withOrder (readLast a b) (readLast_perm a b)) ns base target := by
  obtain ⟨mid, hnum⟩ := numberedMembers_readLast (h := h) hp hpn hq hqn hab
  generalize h.withOrder (readLast a b) (readLast_perm a b) = h' at hnum ⊢
  have hbase := length_baseMembers_lt (h := h') hd h0 h1
  have hm : (d.scaleSnapshot h' ns base).members =
      (d.baseMembers h' ns base ++ [(q.info.name, b)]) ++ (mid ++ [(p.info.name, a)]) := by
    rw [members_eq, hnum]
    simp
  have hlen := length_members h' d ns base
  rw [hm] at hlen
  simp only [List.length_append, List.length_cons, List.length_nil] at hlen
  constructor
  · rw [mem_victims]
    refine ⟨p.info.name, ?_⟩
    rw [hm, ← List.append_assoc, List.drop_append_of_le_length]
    · simp
    · simp only [List.length_append, List.length_cons, List.length_nil]
      omega
  · intro hb
    have hdrop := mem_drop_of_victim hq hb
    rw [hm, List.drop_append, List.drop_eq_nil_of_le (by simp; omega), List.nil_append] at hdrop
    have hnd := nodup_members h' d ns base
    rw [hm] at hnd
    exact (List.nodup_append'.mp hnd).2.2 (by simp) (List.mem_of_mem_drop hdrop)

theorem not_keepsLowest {a b : String} {p q : Process} (hd : d.DistinctNames (scaleNs ns) base)
    (ht : target ≤ 1024) (hlt : target < (d.memberIds (scaleNs ns) base).length)
    (h0 : target ≠ 0)
    (h1 : target = 1 → ∀ id p, d.processes.lookup id = some p →
      isMember (scaleNs ns) base p = true → p.info.name ≠ base)
    (hp : d.processes.lookup a = some p) (hpn : isNumbered (scaleNs ns) base p = true)
    (hq : d.processes.lookup b = some q) (hqn : isNumbered (scaleNs ns) base q = true)
    (hrank : rank base p.info.name < rank base q.info.name) : ¬ KeepsLowest h d ns base target := by
  intro hk
  have hab : a ≠ b := by
    rintro rfl
    rw [hp] at hq
    obtain rfl := Option.some.inj hq
    exact lt_irrefl _ hrank
  obtain ⟨ha, hb⟩ := victims_readLast (h := h) hd hp hpn hq hqn hab hlt h0 h1
  obtain ⟨d', res, hs, hr⟩ := scale_down (h := h.withOrder (readLast a b) (readLast_perm a b))
    (d := d) ht (by rw [length_members]; exact hlt)
  obtain ⟨d'', res', hs', -, hall⟩ := hk (readLast a b) (readLast_perm a b)
  rw [hs] at hs'
  obtain ⟨rfl, -⟩ := Prod.mk.inj hs'
  simp only [isNumbered, Bool.and_eq_true] at hpn hqn
  have hkept : d'.processes.lookup b = some q := by rw [hr.others b hb, hq]
  exact absurd (hall b a q p hq hqn.1 hp hpn.1 hkept (hr.gone a ha)) (not_le.mpr hrank)

/-- **The lowest indices survive** a scale-down in every order of the map exactly if the order
cannot matter.  (A target above 1024 is refused.) -/
theorem keepsLowest_iff (h : Host) (hd : d.DistinctNames (scaleNs ns) base)
    (hlt : target < (d.memberIds (scaleNs ns) base).length) :
    KeepsLowest h d ns base target ↔
      target ≤ 1024 ∧ d.OrderIrrelevant (scaleNs ns) base target := by
  constructor
  · intro hk
    have ht : target ≤ 1024 := by
      obtain ⟨d', res, hs, -⟩ := hk h.hashOrder h.hashOrder_perm
      exact (scale_ok_cases hs).1
    refine ⟨ht, ?_⟩
    by_contra hc
    simp only [OrderIrrelevant, not_or, not_and] at hc
    obtain ⟨h0, h1, h2⟩ := hc
    have h1' : target = 1 → ∀ id p, d.processes.lookup id = some p →
        isMember (scaleNs ns) base p = true → p.info.name ≠ base :=
      fun he id p hp hm hb => h1 he ⟨id, p, hp, hm, hb⟩
    apply h2
    intro a b p q hp hpn hq hqn
    rcases lt_trichotomy (rank base p.info.name) (rank base q.info.name) with hr | hr | hr
    · exact absurd hk (not_keepsLowest hd ht hlt h0 h1' hp hpn hq hqn hr)
    · exact hr
    · exact absurd hk (not_keepsLowest hd ht hlt h0 h1' hq hqn hp hpn hr)
  · rintro ⟨ht, hc⟩
    exact keepsLowest_of_orderIrrelevant hd ht hlt hc

/-! ### Three instances -/

theorem distinctNames_of_nodup
    (hn : ((d.scaleSnapshot h ns base).members.map Prod.fst).Nodup) : d.DistinctNames ns base := by
  intro a b p q hp hpm hq hqm hname
  have ha : (p.info.name, a) ∈ (d.scaleSnapshot h ns base).members :=
    mem_members.mpr ⟨p, hp, hpm, rfl⟩
  have hb : (q.info.name, b) ∈ (d.scaleSnapshot h ns base).members :=
    mem_members.mpr ⟨q, hq, hqm, rfl⟩
  exact congrArg Prod.snd (List.inj_on_of_nodup_map hn ha hb hname)

/-- The processes `api`, `api-1` and `api-2`. -/
def threeApi : Daemon := (oneApi.scale userHost "" "api" 3).1

theorem distinctNames_threeApi : threeApi.DistinctNames "default" "api" :=
  distinctNames_of_nodup (h := userHost) (by decide +kernel)

theorem lookup_threeApi (id name : String)
    (hid : ((threeApi.processes.lookup id).any fun p =>
      isNumbered "default" "api" p && p.info.name == name) = true) :
    ∃ p, threeApi.processes.lookup id = some p ∧ isNumbered "default" "api" p = true ∧
      p.info.name = name := by
  obtain ⟨p, hp, h1⟩ := (Option.any_eq_true _ _).mp hid
  rw [Bool.and_eq_true, beq_iff_eq] at h1
  exact ⟨p, hp, h1.1, h1.2⟩

/-- Down to one: `api` survives. -/
theorem keepsLowest_threeApi :
    threeApi.DistinctNames "default" "api" ∧ 1 < (threeApi.memberIds "default" "api").length ∧
      KeepsLowest userHost threeApi "" "api" 1 := by
  have hbase : ((threeApi.processes.lookup demoId).any fun p =>
      isMember "default" "api" p && p.info.name == "api") = true := by decide +kernel
  obtain ⟨p, hp, h1⟩ := (Option.any_eq_true _ _).mp hbase
  rw [Bool.and_eq_true, beq_iff_eq] at h1
  exact ⟨distinctNames_threeApi, by decide +kernel,
    (keepsLowest_iff userHost distinctNames_threeApi (by decide +kernel)).mpr
      ⟨by decide, .inr (.inl ⟨rfl, demoId, p, hp, h1⟩)⟩⟩

/-- Down to two, read in one order: `api-2` survives and `api-1` is deleted. -/
theorem scale_keeps_highest :
    threeApi.DistinctNames "default" "api" ∧ 2 < (threeApi.memberIds "default" "api").length ∧
      (threeApi.scale userHost "" "api" 2).2 =
        .ok { baseName := "api", ns := "default", before := 3, after := 2,
              deleted := some ["api-1"] } ∧
      ¬ KeepsLowest userHost threeApi "" "api" 2 := by
  have hlt : 2 < (threeApi.memberIds "default" "api").length := by decide +kernel
  obtain ⟨p, hp, hpn, hp1⟩ := lookup_threeApi (userHost.newId 0) "api-1" (by decide +kernel)
  obtain ⟨q, hq, hqn, hq2⟩ := lookup_threeApi (userHost.newId 1) "api-2" (by decide +kernel)
  have hrank : rank "api" p.info.name < rank "api" q.info.name := by
    rw [hp1, hq2]
    decide +kernel
  exact ⟨distinctNames_threeApi, hlt, by decide +kernel,
    not_keepsLowest distinctNames_threeApi (by decide) hlt (by decide)
      (fun he => by cases he) hp hpn hq hqn hrank⟩

end Daemon

end Unitpm
