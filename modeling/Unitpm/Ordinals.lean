import Unitpm.Scaling
import Unitpm.StartProtocol

/-! # The ordinals of instances

`unitpm start --scale n` puts the ordinal of each instance into its environment, as
`UNITPM_INSTANCE`.  A scale-up of the daemon copies the spec of an existing instance, its
environment included, and sets nothing; so the copies have the ordinal of their template.

`App` is the daemon with the ids of the instances of one app.  From its start on, and along the
successful requests to scale it, the ordinals are pairwise distinct throughout if and only if no
request asks for more instances than there are (`distinctOrdinals_iff_along`). -/

namespace Unitpm

open Serde Run

/-! ### The environment of a spec -/

/-- The value of a variable in the environment of the spec. -/
def AppSpec.envVar (s : AppSpec) (k : String) : Option String :=
  Overlay.lastVal (s.env.getD .empty).entries k

/-- The ordinal of an instance: its `UNITPM_INSTANCE`. -/
def AppSpec.ordinal (s : AppSpec) : Option String := s.envVar "UNITPM_INSTANCE"

theorem BTreeMap.lastVal_insert (m : BTreeMap) (k v : String) :
    Overlay.lastVal (m.insert k v).entries k = some v := by
  refine (Overlay.lastVal_eq_some_iff ?_).mpr (mem_insertMember_self k v m.entries)
  exact (m.insert k v).sorted.imp fun hlt => ne_of_lt hlt

theorem ordinal_instanceSpec (appSpec : AppSpec) (scale : ℕ) (id now : String) (i : ℕ) :
    (instanceSpec appSpec scale id now i).ordinal = some (toString i) :=
  BTreeMap.lastVal_insert _ _ _

theorem ordinal_copy (template : AppSpec) (id name ns : String) :
    (Daemon.instanceSpec template id name ns).ordinal = template.ordinal := rfl

/-! ### The start of an app -/

namespace Daemon

variable {h : Host} {privileged : Bool} {identity : Identity} {d d' : Daemon} {s : AppSpec}
  {m : ℕ → Host}

/-- The body of the loop of `run` for the instance `i`, where every reply arrives. -/
def startInstance (m : ℕ → Host) (privileged : Bool) (identity : Identity) (d : Daemon)
    (x : AppSpec × ℕ) : Daemon × Except String Unit :=
  match d.specDir.saveSpec (m x.2) x.1.id x.1 with
  | (dir, .error e) => ({ d with specDir := dir }, .error ("failed to save spec: " ++ e))
  | (dir, .ok _) =>
      match startHandler (m x.2) privileged { d with specDir := dir } identity x.1 with
      | (d, .error e) =>
          (d.deleteSpec (m x.2) x.1.id,
            .error ("start failed for instance " ++ toString (x.2 + 1) ++ ": " ++ e))
      | (d, .ok _) => (d, .ok ())

/-- `unitpm start`: its instances one after the other, until one fails. -/
def runStart (m : ℕ → Host) (privileged : Bool) (identity : Identity) (d : Daemon)
    (specs : List AppSpec) : Daemon × Except String Unit :=
  untilError (startInstance m privileged identity) d specs.zipIdx

/-- A loop body that succeeds: the spec is admitted and can be started, and it is registered. -/
theorem startInstance_ok {x : AppSpec × ℕ}
    (hs : d.startInstance m privileged identity x = (d', .ok ())) :
    ∃ dir t p, admitRequest (m x.2) privileged identity x.1 = .ok t ∧
      CanStart (m x.2) { d with specDir := dir } t ∧ d.processes.lookup t.id = none ∧
      p.spec = t ∧ d'.processes.lookup = Function.update d.processes.lookup t.id (some p) := by
  unfold startInstance at hs
  split at hs
  · cases congrArg Prod.snd hs
  · rename_i dir _ _
    split at hs
    · cases congrArg Prod.snd hs
    · rename_i d₁ r hstart
      obtain ⟨rfl, -⟩ := Prod.mk.inj hs
      by_cases hc : CanHandle (m x.2) privileged { d with specDir := dir } identity x.1
      · obtain ⟨hid, t, ht, hcan⟩ := hc
        obtain ⟨r', hr'⟩ := startHandler_of_canHandle hid ht hcan
        obtain ⟨i, hi⟩ := startWithSpec_ok_iff.mpr hcan
        rw [hstart] at hr'
        obtain ⟨rfl, -⟩ := Prod.mk.inj hr'
        obtain ⟨hnone, p, hspec, hlk⟩ := lookup_of_startWithSpec_ok
          (d := { d with specDir := dir }) (Prod.ext rfl hi)
        exact ⟨dir, t, p, ht, hcan, hnone, hspec, hlk⟩
      · obtain ⟨e, he⟩ := startHandler_of_not_canHandle hc
        rw [hstart] at he
        cases congrArg Prod.snd he

/-- A loop body that fails leaves the registry as it was. -/
theorem startInstance_error {x : AppSpec × ℕ} {e : String}
    (hs : d.startInstance m privileged identity x = (d', .error e)) :
    d'.processes = d.processes := by
  unfold startInstance at hs
  split at hs
  · obtain ⟨rfl, -⟩ := Prod.mk.inj hs
    rfl
  · rename_i dir _ _
    split at hs
    · rename_i d₁ e' hstart
      obtain ⟨rfl, -⟩ := Prod.mk.inj hs
      by_cases hc : CanHandle (m x.2) privileged { d with specDir := dir } identity x.1
      · obtain ⟨hid, t, ht, hcan⟩ := hc
        obtain ⟨r, hr⟩ := startHandler_of_canHandle hid ht hcan
        rw [hstart] at hr
        cases congrArg Prod.snd hr
      · obtain ⟨e, he⟩ := startHandler_of_not_canHandle hc
        rw [hstart] at he
        obtain ⟨rfl, -⟩ := Prod.mk.inj he
        rfl
    · cases congrArg Prod.snd hs

theorem lookup_of_startInstance_ok {x : AppSpec × ℕ}
    (hs : d.startInstance m privileged identity x = (d', .ok ())) :
    ∃ t p, t.id = x.1.id ∧ t.env = x.1.env ∧ d.processes.lookup t.id = none ∧ p.spec = t ∧
      d'.processes.lookup = Function.update d.processes.lookup t.id (some p) := by
  obtain ⟨-, t, p, ht, -, hnone, hspec, hlk⟩ := startInstance_ok hs
  obtain ⟨-, f, c, rfl⟩ := admitRequest_ok ht
  exact ⟨{ x.1 with envFile := f, cwd := c }, p, rfl, rfl, hnone, hspec, hlk⟩

theorem registers_of_runStart {specs : List AppSpec}
    (hs : d.runStart m privileged identity specs = (d', .ok ())) :
    ∃ ts, (∀ s ∈ specs, ∃ t ∈ ts, t.id = s.id ∧ t.env = s.env) ∧ Registers d d' ts := by
  have hrun : ∃ ts, (∀ s ∈ specs.zipIdx.map Prod.fst, ∃ t ∈ ts, t.id = s.id ∧ t.env = s.env) ∧
      Registers d d' ts := by
    apply untilError_ok (fun d (l : List (AppSpec × ℕ)) d' => ∃ ts,
      (∀ s ∈ l.map Prod.fst, ∃ t ∈ ts, t.id = s.id ∧ t.env = s.env) ∧ Registers d d' ts) _ _ hs
    · intro d
      exact ⟨[], by simp, registers_nil d⟩
    · rintro d x l d₁ d' h1 ⟨ts, hts, hr⟩
      obtain ⟨t, p, hid, henv, hnone, hspec, hlk⟩ := lookup_of_startInstance_ok h1
      refine ⟨t :: ts, fun s hs => ?_, hr.cons hnone hspec hlk⟩
      rcases List.mem_cons.mp hs with rfl | hs
      · exact ⟨t, by simp, hid, henv⟩
      · obtain ⟨u, hu, hrest⟩ := hts s hs
        exact ⟨u, by simp [hu], hrest⟩
  rwa [List.zipIdx_map_fst] at hrun

end Daemon

/-! ### An app and the requests to scale it -/

/-- The daemon, and the ids that were given to instances of the app. -/
structure App where
  daemon : Daemon
  ids : List String

structure ScaleRequest where
  ns : String
  base : String
  target : ℕ

namespace App

/-- A request to scale; what it adds to the registry is of the app. -/
def scale (x : App) (a : Host × ScaleRequest) : App :=
  let d := (x.daemon.scale a.1 a.2.ns a.2.base a.2.target).1
  { daemon := d
    ids := x.ids ++ d.processes.entries.keys.filter fun id =>
      (x.daemon.processes.lookup id).isNone }

/-- The request is one on the app: what it matches are instances of the app, and it succeeds. -/
def Concerns (x : App) (a : Host × ScaleRequest) : Prop :=
  (∀ id ∈ x.daemon.memberIds (Daemon.scaleNs a.2.ns) a.2.base, id ∈ x.ids) ∧
    ∃ res, (x.daemon.scale a.1 a.2.ns a.2.base a.2.target).2 = .ok res

/-- The request asks for no more instances than there are. -/
def NoRaise (x : App) (a : Host × ScaleRequest) : Prop :=
  a.2.target ≤ (x.daemon.memberIds (Daemon.scaleNs a.2.ns) a.2.base).length

/-- The registered instances of the app have pairwise distinct ordinals. -/
def DistinctOrdinals (x : App) : Prop :=
  ∀ a b p q, a ∈ x.ids → b ∈ x.ids → x.daemon.processes.lookup a = some p →
    x.daemon.processes.lookup b = some q → p.spec.ordinal = q.spec.ordinal → a = b

variable {x : App} {m : ℕ → Host} {privileged : Bool} {identity : Identity} {d d' : Daemon}

/-- The instances of a command line are given the ordinals `0`, `1`, and so on. -/
theorem distinctOrdinals_start {appSpec : AppSpec} {scale : ℤ} {ids now : ℕ → String}
    (hs : d.runStart m privileged identity (instances appSpec scale ids now) = (d', .ok ())) :
    DistinctOrdinals ⟨d', (instances appSpec scale ids now).map AppSpec.id⟩ := by
  obtain ⟨ts, hts, hr⟩ := Daemon.registers_of_runStart hs
  have hinst : ∀ a ∈ (instances appSpec scale ids now).map AppSpec.id, ∀ p,
      d'.processes.lookup a = some p → ∃ i, a = ids i ∧ p.spec.ordinal = some (toString i) := by
    intro a ha p hp
    obtain ⟨s, hs, rfl⟩ := List.mem_map.mp ha
    obtain ⟨t, ht, hid, henv⟩ := hts s hs
    obtain ⟨q, hq, rfl⟩ := hr.added t ht
    rw [hid, hp] at hq
    obtain rfl := Option.some.inj hq
    obtain ⟨i, -, rfl⟩ := List.mem_map.mp hs
    refine ⟨i, rfl, ?_⟩
    rw [← ordinal_instanceSpec appSpec (max scale 1).toNat (ids i) (now i) i]
    unfold AppSpec.ordinal AppSpec.envVar
    rw [henv]
  intro a b p q ha hb hp hq hord
  obtain ⟨i, rfl, hi⟩ := hinst a ha p hp
  obtain ⟨j, rfl, hj⟩ := hinst b hb q hq
  rw [hi, hj] at hord
  have hij : i = j := by
    apply Daemon.instanceName_injective ""
    simp only [Daemon.instanceName, Option.some.inj hord]
  rw [hij]

theorem distinctOrdinals_of_subset {a : Host × ScaleRequest} (hx : x.DistinctOrdinals)
    (hsub : ∀ id p, (x.scale a).daemon.processes.lookup id = some p →
      x.daemon.processes.lookup id = some p) : (x.scale a).DistinctOrdinals := by
  have hold : ∀ id p, id ∈ (x.scale a).ids →
      (x.scale a).daemon.processes.lookup id = some p → id ∈ x.ids := by
    intro id p hid hp
    refine (List.mem_append.mp hid).resolve_right fun hnew => ?_
    have := (List.mem_filter.mp hnew).2
    rw [hsub id p hp] at this
    cases this
  intro k l p q hk hl hp hq
  exact hx k l p q (hold k p hk hp) (hold l q hl hq) (hsub k p hp) (hsub l q hq)

theorem not_distinctOrdinals_of_copy {a : Host × ScaleRequest} {tid name id : String}
    {p : Process} {specs : List AppSpec} {s : AppSpec} (htid : tid ∈ x.ids)
    (hp : x.daemon.processes.lookup tid = some p)
    (hr : Daemon.Registers x.daemon (x.scale a).daemon specs) (hs : s ∈ specs)
    (hspec : s = Daemon.instanceSpec p.spec id name (Daemon.scaleNs a.2.ns)) :
    ¬ (x.scale a).DistinctOrdinals := by
  intro hdist
  obtain ⟨q, hq, hqs⟩ := hr.added s hs
  have hord : p.spec.ordinal = q.spec.ordinal := by
    rw [hqs, hspec, ordinal_copy]
  have hfresh := hr.fresh s hs
  have heq : tid = s.id := by
    refine hdist tid s.id p q (List.mem_append_left _ htid) ?_ (hr.lookup_of_some hp) hq hord
    refine List.mem_append_right _ (List.mem_filter.mpr ⟨Daemon.mem_keys.mpr ⟨q, hq⟩, ?_⟩)
    rw [hfresh]
    rfl
  rw [heq, hfresh] at hp
  cases hp

/-- A request that succeeds keeps the ordinals distinct exactly if it adds no instance. -/
theorem scale_distinctOrdinals (a : Host × ScaleRequest) (hc : x.Concerns a)
    (hx : x.DistinctOrdinals) : (x.scale a).DistinctOrdinals ↔ x.NoRaise a := by
  obtain ⟨hown, res, hres⟩ := hc
  have hs : x.daemon.scale a.1 a.2.ns a.2.base a.2.target = ((x.scale a).daemon, .ok res) :=
    Prod.ext rfl hres
  obtain ⟨-, ⟨he, hsame, -⟩ | ⟨hlt, hdel, -⟩ | ⟨template, hlt, ht, hcr, -⟩⟩ :=
    Daemon.scale_ok_cases hs
  · rw [Daemon.length_members] at he
    refine ⟨fun _ => he.le, fun _ => distinctOrdinals_of_subset hx fun id p hp => ?_⟩
    rw [hsame] at hp
    exact hp
  · rw [Daemon.length_members] at hlt
    refine ⟨fun _ => hlt.le, fun _ => distinctOrdinals_of_subset hx fun id p hp => ?_⟩
    have hr := Daemon.removes_of_deleteAll hdel
    rw [← hr.others id, hp]
    intro hid
    rw [hr.gone id hid] at hp
    cases hp
  · rw [Daemon.length_members] at hlt
    refine ⟨fun hdist => ?_, fun hle => absurd hle (not_le.mpr hlt)⟩
    obtain ⟨tid, htid, p, hp, rfl⟩ := Daemon.member_of_template ht
    have hr := Daemon.registers_of_createInstances hcr
    obtain ⟨s, hs'⟩ : ∃ s, s ∈ Daemon.newSpecs a.1 p.spec (Daemon.scaleNs a.2.ns)
        (Daemon.newNames a.2.base (a.2.target -
          (x.daemon.scaleSnapshot a.1 (Daemon.scaleNs a.2.ns) a.2.base).members.length)
          ((x.daemon.scaleSnapshot a.1 (Daemon.scaleNs a.2.ns) a.2.base).members.map
            Prod.fst) 1) := by
      apply List.exists_mem_of_length_pos
      rw [Daemon.newSpecs, List.length_map, List.length_zipIdx, Daemon.length_newNames,
        Daemon.length_members]
      omega
    obtain ⟨name, -, id, hspec⟩ := Daemon.mem_newSpecs hs'
    exact absurd hdist
      (not_distinctOrdinals_of_copy (hown tid htid) hp hr hs' hspec)

/-- **Ordinals along a run.** From the start of an app on, and along every sequence of successful
requests to scale it, the ordinals of its registered instances are pairwise distinct throughout
exactly if no request scales it up. -/
theorem distinctOrdinals_iff_along {appSpec : AppSpec} {scale : ℤ} {ids now : ℕ → String}
    (hs : d.runStart m privileged identity (instances appSpec scale ids now) = (d', .ok ()))
    {l : List (Host × ScaleRequest)}
    (hl : Along App.scale Concerns ⟨d', (instances appSpec scale ids now).map AppSpec.id⟩ l) :
    (∀ k, k <+: l → (k.foldl App.scale
        ⟨d', (instances appSpec scale ids now).map AppSpec.id⟩).DistinctOrdinals) ↔
      Along App.scale NoRaise ⟨d', (instances appSpec scale ids now).map AppSpec.id⟩ l := by
  apply Along.forall_prefix_iff (fun _ => True) DistinctOrdinals
  · intro x a _ _
    trivial
  · intro x a _ hc hx
    exact scale_distinctOrdinals a hc hx
  · trivial
  · exact distinctOrdinals_start hs
  · exact hl

/-! ### Two instances -/

/-- The instances of `unitpm start --scale 2 sleep 30 --name api`. -/
def twoSpecs : List AppSpec :=
  instances (plainSpec "") 2 (fun i => "0190b5a0-0000-7000-8000-00000000000" ++ toString i)
    fun _ => "2026-01-01T00:00:00Z"

def twoStarted : Daemon × Except String Unit :=
  (Daemon.fresh 0 none ∅).runStart (fun _ => userHost) false ⟨"1000"⟩ twoSpecs

def twoApp : App := ⟨twoStarted.1, twoSpecs.map AppSpec.id⟩

/-- Down to one. -/
def shrinkApi : Host × ScaleRequest := (userHost, ⟨"", "api", 1⟩)

/-- Up to three. -/
def growApi : Host × ScaleRequest := (userHost, ⟨"", "api", 3⟩)

theorem concerns_shrinkApi : twoApp.Concerns shrinkApi :=
  ⟨by decide +kernel, ⟨"api", "default", 2, 1, none, some ["api-1"]⟩, by decide +kernel⟩

theorem concerns_growApi : twoApp.Concerns growApi :=
  ⟨by decide +kernel, ⟨"api", "default", 2, 3, some ["api-3"], none⟩, by decide +kernel⟩

theorem distinctOrdinals_shrinkApi :
    twoStarted.2 = .ok () ∧ ∀ k, k <+: [shrinkApi] →
      (k.foldl App.scale twoApp).DistinctOrdinals := by
  have hok : twoStarted.2 = .ok () := by decide +kernel
  have hle : twoApp.NoRaise shrinkApi := by
    unfold NoRaise
    decide +kernel
  have hl : Along App.scale Concerns twoApp [shrinkApi] := ⟨concerns_shrinkApi, trivial⟩
  exact ⟨hok, (distinctOrdinals_iff_along (d := Daemon.fresh 0 none ∅) (Prod.ext rfl hok) hl).mpr
    ⟨hle, trivial⟩⟩

/-- The ordinal of an id in the registry. -/
def ordinalAt (x : App) (id : String) : Option String :=
  (x.daemon.processes.lookup id).bind fun p => p.spec.ordinal

/-- The third instance has the ordinal of the second. -/
theorem grown_shares_ordinal :
    twoStarted.2 = .ok () ∧ twoApp.Concerns growApi ∧
      (twoApp.scale growApi).ordinalAt "0190b5a0-0000-7000-8000-000000000001" = some "1" ∧
      (twoApp.scale growApi).ordinalAt (userHost.newId 0) = some "1" ∧
      ¬ (twoApp.scale growApi).DistinctOrdinals := by
  have h1 : (twoApp.scale growApi).ordinalAt "0190b5a0-0000-7000-8000-000000000001" =
      some "1" := by decide +kernel
  have h2 : (twoApp.scale growApi).ordinalAt (userHost.newId 0) = some "1" := by decide +kernel
  refine ⟨by decide +kernel, concerns_growApi, h1, h2, fun hd => ?_⟩
  obtain ⟨p, hp, hp1⟩ := Option.bind_eq_some_iff.mp h1
  obtain ⟨q, hq, hq1⟩ := Option.bind_eq_some_iff.mp h2
  have heq := hd _ _ p q (by decide +kernel) (by decide +kernel) hp hq (hp1.trans hq1.symm)
  revert heq
  decide +kernel

end App

end Unitpm
