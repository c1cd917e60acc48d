import Unitpm.Scaling

/-! # A scale-up that fails half way

The scale-up branch of `Manager::scale` saves the spec of an instance, starts it, and removes the
file again if the start fails; the first failure ends the request, and the instances created so far
stay.  Each instance may find another machine, so that any save, start or removal may fail or not:
`scaleOn` is `Manager::scale` with a machine for every turn of its loops, and `scale` itself if that
is always the same one (`scaleOn_const`).

Where a write takes full effect or none, what was there before is untouched, every new entry has its
file, and every new file has its entry but for one: the file of the instance that did not start, if
its removal failed as well (`partial_scaleUp`). -/

namespace Unitpm

open Run

/-- A save takes full effect or leaves the file as it was. -/
def Host.NoTornWrite (h : Host) : Prop := ∀ id s e, h.specWrite id s ≠ .torn e

namespace Daemon

variable {h : Host} {d d' : Daemon} {ns base : String} {s : AppSpec}

/-! ### The loop, instance by instance -/

/-- The instances of a scale-up, each with the machine it is created on. -/
def newInstances (m : ℕ → Host) (template : AppSpec) (ns : String) (names : List String) :
    List (Host × AppSpec) :=
  names.zipIdx.map fun n => (m n.2, instanceSpec template ((m n.2).newId n.2) n.1 ns)

/-- `Manager::scale`, with the machine `m i` in the `i`-th turn of its loop. -/
def scaleOn (m : ℕ → Host) (d : Daemon) (ns base : String) (target : ℕ) :
    Daemon × Except ManagerError ScaleResponse :=
  if target > 1024 then (d, .error (.limits "target count must be <= 1024"))
  else
    let ns := scaleNs ns
    let snap := d.scaleSnapshot (m 0) ns base
    let n := snap.members.length
    let res : ScaleResponse := { baseName := base, ns := ns, before := n, after := target }
    if target = n then (d, .ok res)
    else if target < n then
      let gone := snap.members.drop target
      match untilError (fun d x => d.deleteInstance (m x.2) x.1) d
          (gone.map Prod.snd).reverse.zipIdx with
      | (d, .error e) => (d, .error e)
      | (d, .ok _) => (d, .ok { res with deleted := some (gone.map Prod.fst) })
    else match snap.template with
      | none => (d, .error (.noTemplate base))
      | some template =>
          let names := newNames base (target - n) (snap.members.map Prod.fst) 1
          match untilError (fun d x => d.createInstance x.1 x.2) d
              (newInstances m template ns names) with
          | (d, .error e) => (d, .error e)
          | (d, .ok _) => (d, .ok { res with created := some names })

/-- On one machine this is `scale`. -/
theorem scaleOn_const (h : Host) (d : Daemon) (ns base : String) (target : ℕ) :
    d.scaleOn (fun _ => h) ns base target = d.scale h ns base target := by
  have hdel : ∀ ids : List String, untilError (fun d x => d.deleteInstance h x.1) d ids.zipIdx =
      d.deleteAll h ids := by
    intro ids
    rw [← untilError_map (deleteInstance h) Prod.fst, List.zipIdx_map_fst, deleteAll]
  have hcreate : ∀ template ns d names, untilError (fun d x => d.createInstance x.1 x.2) d
      (newInstances (fun _ => h) template ns names) = createInstances h template ns d names := by
    intro template ns d names
    rw [newInstances, untilError_map, createInstances]
  unfold scaleOn
  simp only [hdel, hcreate]
  rfl

/-! ### One instance -/

theorem saveSpec_cases (hw : h.NoTornWrite) (dir : SpecDir) (id : String) (s : AppSpec) :
    (dir.saveSpec h id s).1.file = Function.update dir.file id (some (.spec s)) ∧
        (dir.saveSpec h id s).2 = .ok () ∨
      (dir.saveSpec h id s).1 = dir ∧ ∃ e, (dir.saveSpec h id s).2 = .error e := by
  unfold SpecDir.saveSpec
  cases hres : h.specWrite id s with
  | done =>
      refine .inl ⟨?_, rfl⟩
      funext k
      by_cases hk : k = id
      · rw [hk, Function.update_self]
        exact AList.lookup_insert _
      · rw [Function.update_of_ne hk]
        exact AList.lookup_insert_ne hk
  | failed e => exact .inr ⟨rfl, e, rfl⟩
  | torn e => exact absurd hres (hw id s e)

theorem startWithSpec_file {i : ProcessInfo} (hw : h.NoTornWrite)
    (hs : d.startWithSpec h s = (d', .ok i)) :
    d'.specDir.file = d.specDir.file ∨
      d'.specDir.file =
        Function.update d.specDir.file s.id (some (.spec { s with disabled := false })) := by
  obtain ⟨p, hp, he⟩ : d.CanStart h s := startWithSpec_ok_iff.mp ⟨i, by rw [hs]⟩
  rw [startWithSpec_of_canStart hp he] at hs
  obtain ⟨rfl, -⟩ := Prod.mk.inj hs
  rw [put_specDir]
  show (d.dirAfterStart h s).file = _ ∨ (d.dirAfterStart h s).file = _
  unfold dirAfterStart
  split
  · rcases saveSpec_cases hw d.specDir s.id { s with disabled := false } with hf | hf
    · exact .inr hf.1
    · exact .inl (congrArg SpecDir.file hf.1)
  · exact .inl rfl

/-- An instance that was created has its file. -/
theorem createInstance_file_ok (hw : h.NoTornWrite)
    (hs : d.createInstance h s = (d', .ok ())) :
    ∃ b, d'.specDir.file =
      Function.update d.specDir.file s.id (some (.spec { s with disabled := b })) := by
  unfold createInstance at hs
  split at hs
  · cases congrArg Prod.snd hs
  · rename_i dir _ hsave
    split at hs
    · cases congrArg Prod.snd hs
    · rename_i hstart
      obtain ⟨rfl, -⟩ := Prod.mk.inj hs
      have hdir : dir.file = Function.update d.specDir.file s.id (some (.spec s)) := by
        rcases saveSpec_cases hw d.specDir s.id s with hf | ⟨-, e, he⟩
        · rw [hsave] at hf
          exact hf.1
        · rw [hsave] at he
          cases he
      rcases startWithSpec_file (d := { d with specDir := dir }) hw hstart with hf | hf
      · exact ⟨s.disabled, hf.trans hdir⟩
      · refine ⟨false, hf.trans ?_⟩
        show Function.update dir.file s.id _ = _
        rw [hdir, Function.update_idem]

theorem eq_of_startWithSpec_error {e : ManagerError} (hs : d.startWithSpec h s = (d', .error e)) :
    d' = d := by
  have hn : ¬ CanStart h d s := by
    intro hc
    obtain ⟨i, hi⟩ := startWithSpec_ok_iff.mpr hc
    rw [hs] at hi
    cases hi
  obtain ⟨e', he⟩ := startWithSpec_of_not_canStart hn
  exact congrArg Prod.fst (hs.symm.trans he)

/-- An instance that was not created leaves no entry, and a file only if its removal failed. -/
theorem createInstance_error {e : ManagerError} (hw : h.NoTornWrite)
    (hnew : d.specDir.file s.id = none) (hs : d.createInstance h s = (d', .error e)) :
    d'.processes = d.processes ∧
      (d'.specDir.file = d.specDir.file ∨
        h.specRemoveErr s.id ≠ none ∧
          d'.specDir.file = Function.update d.specDir.file s.id (some (.spec s))) := by
  unfold createInstance at hs
  split at hs
  · rename_i dir _ hsave
    obtain ⟨rfl, -⟩ := Prod.mk.inj hs
    rcases saveSpec_cases hw d.specDir s.id s with ⟨-, hok⟩ | ⟨hf, -⟩
    · rw [hsave] at hok
      cases hok
    · rw [hsave] at hf
      exact ⟨rfl, .inl (congrArg SpecDir.file hf)⟩
  · rename_i dir _ hsave
    have hdir : dir.file = Function.update d.specDir.file s.id (some (.spec s)) := by
      rcases saveSpec_cases hw d.specDir s.id s with hf | ⟨-, e, he⟩
      · rw [hsave] at hf
        exact hf.1
      · rw [hsave] at he
        cases he
    split at hs
    · rename_i d₁ e₁ hstart
      obtain ⟨rfl, -⟩ := Prod.mk.inj hs
      obtain rfl := eq_of_startWithSpec_error hstart
      refine ⟨rfl, ?_⟩
      cases hr : h.specRemoveErr s.id with
      | none =>
          refine .inl ?_
          show (dir.deleteSpec h s.id).1.file = d.specDir.file
          rw [SpecDir.file_deleteSpec hr, hdir, Function.update_idem, ← hnew,
            Function.update_eq_self]
      | some e₃ =>
          refine .inr ⟨by simp, ?_⟩
          show (dir.deleteSpec h s.id).1.file = _
          rw [SpecDir.deleteSpec, hr, hdir]
    · cases congrArg Prod.snd hs

/-! ### The whole loop -/

/-- The files when the specs have been registered. -/
structure Persisted (d d' : Daemon) (specs : List AppSpec) : Prop where
  stored : ∀ s ∈ specs, ∃ b, d'.specDir.file s.id = some (.spec { s with disabled := b })
  others : ∀ id, id ∉ specs.map AppSpec.id → d'.specDir.file id = d.specDir.file id

theorem persisted_of_untilError {l : List (Host × AppSpec)}
    (hs : untilError (fun d x => d.createInstance x.1 x.2) d l = (d', .ok ()))
    (hw : ∀ x ∈ l, x.1.NoTornWrite) (hnd : ((l.map Prod.snd).map AppSpec.id).Nodup) :
    Persisted d d' (l.map Prod.snd) := by
  revert hw hnd
  apply untilError_ok (fun d l d' => (∀ x ∈ l, x.1.NoTornWrite) →
    ((l.map Prod.snd).map AppSpec.id).Nodup → Persisted d d' (l.map Prod.snd)) _ _ hs
  · intro d _ _
    exact ⟨by simp, fun _ _ => rfl⟩
  · rintro d ⟨h, s⟩ l d₁ d' h1 ih hw hnd
    rw [List.map_cons, List.map_cons, List.nodup_cons] at hnd
    have hr := ih (fun x hx => hw x (by simp [hx])) hnd.2
    obtain ⟨b, hf⟩ := createInstance_file_ok (hw (h, s) (by simp)) h1
    refine ⟨fun t ht => ?_, fun id hid => ?_⟩
    · rcases List.mem_cons.mp ht with rfl | ht
      · exact ⟨b, by rw [hr.others _ hnd.1, hf, Function.update_self]⟩
      · exact hr.stored t ht
    · rw [List.map_cons, List.map_cons, List.mem_cons, not_or] at hid
      rw [hr.others id hid.2, hf, Function.update_of_ne hid.1]

/-- The first `n` ids generated in the loop are new: `Uuid::now_v7` gives no id twice, and no file
has one. -/
def FreshFiles (m : ℕ → Host) (d : Daemon) (n : ℕ) : Prop :=
  Set.InjOn (fun i => (m i).newId i) (Set.Iio n) ∧ ∀ i < n, d.specDir.file ((m i).newId i) = none

/-- The ids whose file is new and which are not registered. -/
def orphans (d d' : Daemon) : Set String :=
  { id | d.specDir.file id = none ∧ d'.specDir.file id ≠ none ∧ d'.processes.lookup id = none }

/-- What a scale-up leaves however far it came. -/
structure PartialUp (m : ℕ → Host) (d d' : Daemon) : Prop where
  entries : ∀ id p, d.processes.lookup id = some p → d'.processes.lookup id = some p
  files : ∀ id f, d.specDir.file id = some f → d'.specDir.file id = some f
  stored : ∀ id p, d.processes.lookup id = none → d'.processes.lookup id = some p →
    ∃ b, d'.specDir.file id = some (.spec { p.spec with disabled := b })
  orphan : (orphans d d').Subsingleton ∧
    ∀ id ∈ orphans d d', ∃ i, id = (m i).newId i ∧ (m i).specRemoveErr id ≠ none

theorem partialUp_self (m : ℕ → Host) (d : Daemon) : PartialUp m d d where
  entries _ _ hp := hp
  files _ _ hf := hf
  stored id p hn hp := by rw [hn] at hp; cases hp
  orphan := ⟨fun id hid => absurd hid.1 hid.2.1, fun id hid => absurd hid.1 hid.2.1⟩

theorem newInstances_ids {m : ℕ → Host} {template : AppSpec} {names : List String}
    {k : ℕ} (hf : FreshFiles m d k) (hlen : names.length ≤ k) :
    ((((newInstances m template ns names).map Prod.snd).map AppSpec.id).Nodup) ∧
      ∀ x ∈ newInstances m template ns names, ∃ i < k, x.1 = m i ∧ x.2.id = (m i).newId i := by
  have hlt : ∀ n ∈ names.zipIdx, n.2 < k := fun n hn => by
    have := List.snd_lt_of_mem_zipIdx hn
    omega
  constructor
  · rw [newInstances, List.map_map, List.map_map]
    have hnd : (names.zipIdx.map Prod.snd).Nodup := List.nodup_zipIdx_map_snd names
    refine List.Nodup.map_on ?_ (List.Nodup.of_map Prod.snd hnd)
    intro a ha b hb hab
    exact List.inj_on_of_nodup_map hnd ha hb
      (hf.1 (Set.mem_Iio.mpr (hlt a ha)) (Set.mem_Iio.mpr (hlt b hb)) hab)
  · intro x hx
    obtain ⟨n, hn, rfl⟩ := List.mem_map.mp hx
    exact ⟨n.2, hlt n hn, rfl, rfl⟩

/-- The only file without an entry is that of the instance that was not created. -/
theorem orphan_of_error {d₁ : Daemon} {specs : List AppSpec} (hr : Registers d d₁ specs)
    (hst : Persisted d d₁ specs) (hproc : d'.processes = d₁.processes)
    (hother : ∀ id, id ≠ s.id → d'.specDir.file id = d₁.specDir.file id) {id : String}
    (ho : id ∈ orphans d d') : id = s.id := by
  obtain ⟨h1, h2, h3⟩ := ho
  by_contra hne
  rw [hother id hne] at h2
  by_cases hm : id ∈ specs.map AppSpec.id
  · obtain ⟨t, ht, rfl⟩ := List.mem_map.mp hm
    obtain ⟨p, hp, -⟩ := hr.added t ht
    rw [hproc, hp] at h3
    cases h3
  · exact h2 ((hst.others id hm).trans h1)

/-- What is left when the creations before `x` have succeeded and that of `x` has failed. -/
theorem partialUp_of_error {m : ℕ → Host} {d₁ : Daemon} {l : List (Host × AppSpec)} {i : ℕ}
    {e : ManagerError} (hr : Registers d d₁ (l.map Prod.snd))
    (hst : Persisted d d₁ (l.map Prod.snd))
    (hnew : ∀ x ∈ l, d.specDir.file x.2.id = none) (hw : h.NoTornWrite) (hh : h = m i)
    (hid : s.id = (m i).newId i) (hs : s.id ∉ (l.map Prod.snd).map AppSpec.id)
    (hfile : d.specDir.file s.id = none) (herr : d₁.createInstance h s = (d', .error e)) :
    PartialUp m d d' := by
  have hfile₁ : d₁.specDir.file s.id = none := by rw [hst.others s.id hs, hfile]
  obtain ⟨hproc, hfiles⟩ := createInstance_error hw hfile₁ herr
  have hother : ∀ id, id ≠ s.id → d'.specDir.file id = d₁.specDir.file id := by
    intro id hne
    rcases hfiles with hf | ⟨-, hf⟩
    · rw [hf]
    · rw [hf, Function.update_of_ne hne]
  refine ⟨fun id p hp => ?_, fun id f hf => ?_, fun id p hn hp => ?_, ?_, ?_⟩
  · rw [hproc]
    exact hr.lookup_of_some hp
  · have hne : id ≠ s.id := by
      rintro rfl
      rw [hfile] at hf
      cases hf
    rw [hother id hne, hst.others id, hf]
    intro hm
    obtain ⟨t, ht, rfl⟩ := List.mem_map.mp hm
    obtain ⟨x, hx, rfl⟩ := List.mem_map.mp ht
    rw [hnew x hx] at hf
    cases hf
  · rw [hproc] at hp
    obtain ⟨t, ht, rfl⟩ := List.mem_map.mp ((hr.mem_iff id).mpr ⟨⟨p, hp⟩, hn⟩)
    have hne : t.id ≠ s.id := fun he => hs (he ▸ List.mem_map_of_mem ht)
    obtain ⟨q, hq, rfl⟩ := hr.added t ht
    rw [hp] at hq
    obtain rfl := Option.some.inj hq
    rw [hother _ hne]
    exact hst.stored _ ht
  · intro a ha b hb
    rw [orphan_of_error hr hst hproc hother ha, orphan_of_error hr hst hproc hother hb]
  · intro id ho
    obtain rfl := orphan_of_error hr hst hproc hother ho
    rcases hfiles with hf | ⟨hrem, -⟩
    · refine absurd ?_ ho.2.1
      rw [hf, hfile₁]
    · exact ⟨i, hid, hh ▸ hrem⟩

/-- The loop of the scale-up branch, whichever instance fails. -/
theorem partialUp_of_loop {m : ℕ → Host} {template : AppSpec} {names : List String}
    {e : ManagerError} {k : ℕ} (hw : ∀ i, (m i).NoTornWrite) (hf : FreshFiles m d k)
    (hlen : names.length ≤ k)
    (hloop : untilError (fun d x => d.createInstance x.1 x.2) d
      (newInstances m template ns names) = (d', .error e)) : PartialUp m d d' := by
  obtain ⟨hnd, hids⟩ := newInstances_ids hf hlen
  obtain ⟨l₁, ⟨h, s⟩, l₂, d₁, hl, hok, herr⟩ := untilError_error hloop
  rw [hl] at hnd hids
  obtain ⟨i, hi, rfl, hid⟩ := hids (h, s) (by simp)
  rw [List.map_append, List.map_append, List.nodup_append'] at hnd
  obtain ⟨hnd₁, -, hdisj⟩ := hnd
  have hw₁ : ∀ x ∈ l₁, x.1.NoTornWrite := by
    intro x hx
    obtain ⟨j, -, hj, -⟩ := hids x (by simp [hx])
    rw [hj]
    exact hw j
  have hnew : ∀ x ∈ l₁, d.specDir.file x.2.id = none := by
    intro x hx
    obtain ⟨j, hjlt, -, hj⟩ := hids x (by simp [hx])
    rw [hj]
    exact hf.2 j hjlt
  have hs : s.id ∉ (l₁.map Prod.snd).map AppSpec.id := fun hm => hdisj hm (by simp)
  exact partialUp_of_error (registers_of_untilError hok) (persisted_of_untilError hok hw₁ hnd₁) hnew
    (hw i) rfl hid hs (hid ▸ hf.2 i hi) herr

/-- **A scale-up that fails** leaves what was there, has a file for every entry it added, and has an
entry for every file it created, except for the file of the instance that failed to start when that
file could not be removed again. -/
theorem partial_scaleUp {m : ℕ → Host} {target : ℕ} {e : ManagerError}
    (hw : ∀ i, (m i).NoTornWrite) (hf : FreshFiles m d target)
    (hlt : (d.memberIds (scaleNs ns) base).length < target)
    (herr : d.scaleOn m ns base target = (d', .error e)) : PartialUp m d d' := by
  rw [← length_members (m 0)] at hlt
  unfold scaleOn at herr
  split at herr
  · obtain ⟨rfl, -⟩ := Prod.mk.inj herr
    exact partialUp_self m d
  · simp only at herr
    rw [if_neg (by omega), if_neg (by omega)] at herr
    split at herr
    · obtain ⟨rfl, -⟩ := Prod.mk.inj herr
      exact partialUp_self m d
    · split at herr
      · rename_i hloop
        obtain ⟨rfl, -⟩ := Prod.mk.inj herr
        exact partialUp_of_loop hw hf (by rw [length_newNames]; omega) hloop
      · cases congrArg Prod.snd herr

/-! ### A limit reached half way -/

/-- A daemon for at most two processes, with one called `api`. -/
def oneOfTwo : Daemon := ((fresh 2 none ∅).startWithSpec userHost (plainSpec demoId)).1

/-- A machine on which no spec file can be removed. -/
def noRemoveHost : Host :=
  { userHost with specRemoveErr := fun _ => some "io error: Operation not permitted (os error 1)" }

theorem noTornWrite_noRemoveHost : noRemoveHost.NoTornWrite := by
  intro id s e he
  cases he

theorem freshFiles_oneOfTwo : FreshFiles (fun _ => noRemoveHost) oneOfTwo 3 := by
  refine ⟨?_, by decide +kernel⟩
  intro i hi j hj hij
  have hall : ∀ i < 3, ∀ j < 3, noRemoveHost.newId i = noRemoveHost.newId j → i = j := by
    decide +kernel
  exact hall i hi j hj hij

theorem scaleOn_oneOfTwo : (oneOfTwo.scaleOn (fun _ => noRemoveHost) "" "api" 3).2 =
    .error (.scale "ERR_LIMITS: max processes reached") := by decide +kernel

theorem partial_scaleUp_oneOfTwo :
    PartialUp (fun _ => noRemoveHost) oneOfTwo
      (oneOfTwo.scaleOn (fun _ => noRemoveHost) "" "api" 3).1 :=
  partial_scaleUp (fun _ => noTornWrite_noRemoveHost) freshFiles_oneOfTwo (by decide +kernel)
    (Prod.ext rfl scaleOn_oneOfTwo)

/-- The instance over the limit leaves its file behind if that cannot be removed. -/
theorem scaleUp_leaves_orphan :
    noRemoveHost.NoTornWrite ∧
      (oneOfTwo.memberIds "default" "api").length < 3 ∧
      (oneOfTwo.scaleOn (fun _ => noRemoveHost) "" "api" 3).2 =
        .error (.scale "ERR_LIMITS: max processes reached") ∧
      noRemoveHost.newId 1 ∈
        orphans oneOfTwo (oneOfTwo.scaleOn (fun _ => noRemoveHost) "" "api" 3).1 :=
  ⟨noTornWrite_noRemoveHost, by decide +kernel, scaleOn_oneOfTwo, by decide +kernel,
    by decide +kernel, by decide +kernel⟩

end Daemon

end Unitpm
