import Unitpm.AuditLog
import Mathlib.Data.Set.Subsingleton

/-! # Stops that run at the same time

`stop_handler` takes the lock of the manager four times: to resolve the selector, to read name and
namespace, to sample the state of the process, and to stop it.  A request is here the point it has
come to (`Phase`), and a run is any interleaving of such steps with other uses of the manager.

The sample and the stop are two steps, so two requests can both find the process running; but then
each has sampled before the other stopped (`sampled_before_stop`).  `wasRunning_subsingleton`: of
requests that do not overlap in this way at most one is told that the process was running. -/

namespace Unitpm

open Run

namespace Stopping

/-! ### Requests -/

/-- How far a stop request has come. -/
inductive Phase where
  | received (target : String)
  | resolved (id : String)
  | described (id : String) (info : String × String)
  | sampled (id : String) (info : String × String) (was : Bool)
  | answered (r : Except String Response)
deriving DecidableEq

/-- Whether the process of an id counts as running. -/
def active (d : Daemon) (id : String) : Bool :=
  ((d.processes.lookup id).map fun p => wasRunning p.info.state).getD false

/-- The next section of `stop_handler` under the lock. -/
def Phase.advance (h : Host) (d : Daemon) : Phase → Daemon × Phase
  | .received target =>
      match d.resolveId h target with
      | .error e => (d, .answered (.error e.toText))
      | .ok id => (d, .resolved id)
  | .resolved id => (d, .described id (processMeta d id))
  | .described id info => (d, .sampled id info (active d id))
  | .sampled id _ was =>
      match d.stop h id with
      | (d, .error e) => (d, .answered (.error e.toText))
      | (d, .ok _) => (d, .answered (.ok (.stopped id was)))
  | .answered r => (d, .answered r)

/-- The four sections, with what other requests do in between, are the handler. -/
theorem advance_eq_stopHandler {h : Host} {errText : Serde.Error → String}
    {others : ℕ → Daemon → Daemon} {disk : Disk} {d : Daemon} {identity : Identity}
    {params : RawMessage} {a : IdArgs} (hp : params.unmarshal IdArgs.shape = .ok a)
    {id : String} (hid : (others 0 d).resolveId h a.id = .ok id) :
    let r := Audit.stopHandler h errText others disk d identity params
    let s₁ := (Phase.received a.id).advance h (others 0 d)
    let s₂ := s₁.2.advance h (others 1 s₁.1)
    let s₃ := s₂.2.advance h (others 2 s₂.1)
    let s₄ := s₃.2.advance h (others 3 s₃.1)
    ∃ answer, s₄ = (r.daemon, .answered answer) ∧ r.result = answer.map .response := by
  simp only [Audit.stopHandler, hp, Phase.advance, hid]
  cases hs : (others 3 (others 2 (others 1 (others 0 d)))).stop h id with
  | mk d' r => cases r <;> exact ⟨_, rfl, rfl⟩

/-! ### Runs -/

/-- The daemon and its stop requests, with the times at which each has sampled and stopped. -/
structure System where
  daemon : Daemon
  phase : ℕ → Phase
  clock : ℕ := 0
  sampledAt : ℕ → ℕ := fun _ => 0
  stoppedAt : ℕ → ℕ := fun _ => 0

/-- A section of one request, or another use of the manager. -/
inductive Act where
  | advance (h : Host) (i : ℕ)
  | other (f : Daemon → Daemon)

def System.step (s : System) : Act → System
  | .advance h i =>
      { daemon := ((s.phase i).advance h s.daemon).1
        phase := Function.update s.phase i ((s.phase i).advance h s.daemon).2
        clock := s.clock + 1
        sampledAt :=
          match s.phase i with
          | .described .. => Function.update s.sampledAt i s.clock
          | _ => s.sampledAt
        stoppedAt :=
          match s.phase i with
          | .sampled .. => Function.update s.stoppedAt i s.clock
          | _ => s.stoppedAt }
  | .other f => { s with daemon := f s.daemon, clock := s.clock + 1 }

/-- Every request is new. -/
def System.start (d : Daemon) (targets : ℕ → String) : System where
  daemon := d
  phase i := .received (targets i)

/-- No other use of the manager starts the process. -/
def KeepsStopped (id : String) (s : System) : Act → Prop
  | .advance _ _ => True
  | .other f => active (f s.daemon) id = true → active s.daemon id = true

/-- The request was told that the process was running. -/
def System.ToldRunning (s : System) (id : String) (i : ℕ) : Prop :=
  s.phase i = .answered (.ok (.stopped id true))

/-! ### The invariant -/

/-- The request has sampled the process as running. -/
def System.SawRunning (s : System) (id : String) (i : ℕ) : Prop :=
  (∃ info, s.phase i = .sampled id info true) ∨ s.ToldRunning id i

/-- The request has stopped the process. -/
def System.HasStopped (s : System) (id : String) (i : ℕ) : Prop :=
  ∃ was, s.phase i = .answered (.ok (.stopped id was))

/-- Samples that found the process running are older than every stop, and after a stop it does not
count as running. -/
structure System.Ordered (s : System) (id : String) : Prop where
  past : ∀ i, s.SawRunning id i → s.sampledAt i < s.clock
  before : ∀ i j, s.SawRunning id i → s.HasStopped id j → s.sampledAt i < s.stoppedAt j
  inactive : ∀ j, s.HasStopped id j → active s.daemon id = false

theorem ordered_start (d : Daemon) (targets : ℕ → String) (id : String) :
    (System.start d targets).Ordered id where
  past i hi := by
    rcases hi with ⟨info, hi⟩ | hi
    · cases hi
    · cases hi
  before i j _ hj := by
    obtain ⟨was, hj⟩ := hj
    cases hj
  inactive j hj := by
    obtain ⟨was, hj⟩ := hj
    cases hj

theorem active_stop (h : Host) (d : Daemon) (id k : String) :
    active (d.stop h id).1 k = true → active d k = true ∧ k ≠ id := by
  unfold active
  rw [Daemon.stop_lookup]
  by_cases hk : k = id
  · subst hk
    rw [Function.update_self, Option.map_map]
    cases d.processes.lookup k with
    | none => intro hn; cases hn
    | some p => intro hn; cases hn
  · rw [Function.update_of_ne hk]
    exact fun ha => ⟨ha, hk⟩

/-- The rule for one step: a request that newly saw the process running saw it now, and one that
newly stopped it did so now. -/
theorem System.Ordered.next {s s' : System} {id : String} (ho : s.Ordered id)
    (hclock : s'.clock = s.clock + 1)
    (hsaw : ∀ i, s'.SawRunning id i → (s.SawRunning id i ∧ s'.sampledAt i = s.sampledAt i) ∨
      (active s'.daemon id = true ∧ s'.sampledAt i = s.clock))
    (hstopped : ∀ j, s'.HasStopped id j → (s.HasStopped id j ∧ s'.stoppedAt j = s.stoppedAt j) ∨
      (active s'.daemon id = false ∧ s'.stoppedAt j = s.clock))
    (hactive : active s'.daemon id = true → active s.daemon id = true) : s'.Ordered id where
  past i hi := by
    rcases hsaw i hi with ⟨hold, heq⟩ | ⟨-, heq⟩
    · have := ho.past i hold
      omega
    · omega
  before i j hi hj := by
    rcases hsaw i hi with ⟨hi, hti⟩ | ⟨ha, hti⟩
    · rcases hstopped j hj with ⟨hj, htj⟩ | ⟨-, htj⟩
      · have := ho.before i j hi hj
        omega
      · have := ho.past i hi
        omega
    · rcases hstopped j hj with ⟨hj, -⟩ | ⟨hn, -⟩
      · exact absurd (hactive ha) (by simp [ho.inactive j hj])
      · exact absurd ha (by simp [hn])
  inactive j hj := by
    rcases hstopped j hj with ⟨hj, -⟩ | ⟨hn, -⟩
    · exact Bool.eq_false_iff.mpr fun ha => absurd (hactive ha) (by simp [ho.inactive j hj])
    · exact hn

section Advance

variable {s : System} {id : String} {h : Host} {i k : ℕ}

theorem sawRunning_advance_of_ne (hk : k ≠ i) (hsaw : (s.step (.advance h i)).SawRunning id k) :
    s.SawRunning id k ∧ (s.step (.advance h i)).sampledAt k = s.sampledAt k := by
  constructor
  · simpa [System.SawRunning, System.ToldRunning, System.step, Function.update_of_ne hk] using hsaw
  · simp only [System.step]
    cases s.phase i <;> simp [Function.update_of_ne hk]

theorem hasStopped_advance_of_ne (hk : k ≠ i) (hs : (s.step (.advance h i)).HasStopped id k) :
    s.HasStopped id k ∧ (s.step (.advance h i)).stoppedAt k = s.stoppedAt k := by
  constructor
  · simpa [System.HasStopped, System.step, Function.update_of_ne hk] using hs
  · simp only [System.step]
    cases s.phase i <;> simp [Function.update_of_ne hk]

theorem phase_advance : (s.step (.advance h i)).phase i = ((s.phase i).advance h s.daemon).2 :=
  Function.update_self ..

theorem daemon_advance : (s.step (.advance h i)).daemon = ((s.phase i).advance h s.daemon).1 := rfl

theorem sawRunning_advance_self (hsaw : (s.step (.advance h i)).SawRunning id i) :
    (s.SawRunning id i ∧ (s.step (.advance h i)).sampledAt i = s.sampledAt i) ∨
      (active (s.step (.advance h i)).daemon id = true ∧
        (s.step (.advance h i)).sampledAt i = s.clock) := by
  unfold System.SawRunning System.ToldRunning at hsaw ⊢
  rw [phase_advance] at hsaw
  rw [daemon_advance]
  cases hp : s.phase i with
  | received target =>
      rw [hp, Phase.advance] at hsaw
      split at hsaw <;> simp at hsaw
  | resolved id₀ => simp [hp, Phase.advance] at hsaw
  | described id₀ info =>
      rw [hp] at hsaw
      obtain ⟨rfl, ha⟩ : id₀ = id ∧ active s.daemon id₀ = true := by
        simpa [Phase.advance] using hsaw
      exact Or.inr ⟨ha, by simp [System.step, hp]⟩
  | sampled id₀ info was =>
      rw [hp, Phase.advance] at hsaw
      refine Or.inl ⟨Or.inl ⟨info, ?_⟩, by simp [System.step, hp]⟩
      split at hsaw
      · simp at hsaw
      · simpa using hsaw
  | answered r =>
      rw [hp] at hsaw
      exact Or.inl ⟨hsaw, by simp [System.step, hp]⟩

theorem hasStopped_advance_self (hs : (s.step (.advance h i)).HasStopped id i) :
    (s.HasStopped id i ∧ (s.step (.advance h i)).stoppedAt i = s.stoppedAt i) ∨
      (active (s.step (.advance h i)).daemon id = false ∧
        (s.step (.advance h i)).stoppedAt i = s.clock) := by
  unfold System.HasStopped at hs ⊢
  rw [phase_advance] at hs
  rw [daemon_advance]
  cases hp : s.phase i with
  | received target =>
      rw [hp, Phase.advance] at hs
      split at hs <;> simp at hs
  | resolved id₀ => simp [hp, Phase.advance] at hs
  | described id₀ info => simp [hp, Phase.advance] at hs
  | sampled id₀ info was =>
      refine Or.inr ⟨?_, by simp [System.step, hp]⟩
      have hinactive := active_stop h s.daemon id₀ id
      rw [hp, Phase.advance] at hs
      rw [Phase.advance]
      split at hs
      · simp at hs
      · rename_i d' _ hstop
        rw [hstop] at hinactive
        have hid : id₀ = id := by simpa using hs
        exact Bool.eq_false_iff.mpr fun ha => (hinactive ha).2 hid.symm
  | answered r =>
      rw [hp] at hs
      exact Or.inl ⟨hs, by simp [System.step, hp]⟩

theorem active_advance (ha : active (s.step (.advance h i)).daemon id = true) :
    active s.daemon id = true := by
  rw [daemon_advance] at ha
  cases hp : s.phase i with
  | received target =>
      rw [hp, Phase.advance] at ha
      split at ha <;> exact ha
  | sampled id₀ info was =>
      rw [hp, Phase.advance] at ha
      have hactive := active_stop h s.daemon id₀ id
      split at ha
      · rename_i hstop
        rw [hstop] at hactive
        exact (hactive ha).1
      · rename_i hstop
        rw [hstop] at hactive
        exact (hactive ha).1
  | _ =>
      rw [hp] at ha
      exact ha

end Advance

theorem ordered_step (id : String) (s : System) (a : Act) (ho : s.Ordered id)
    (ha : KeepsStopped id s a) : (s.step a).Ordered id := by
  cases a with
  | advance h i =>
      refine ho.next rfl (fun k hk => ?_) (fun k hk => ?_) active_advance
      · by_cases hki : k = i
        · subst hki
          exact sawRunning_advance_self hk
        · exact Or.inl (sawRunning_advance_of_ne hki hk)
      · by_cases hki : k = i
        · subst hki
          exact hasStopped_advance_self hk
        · exact Or.inl (hasStopped_advance_of_ne hki hk)
  | other f => exact ho.next rfl (fun k hk => Or.inl ⟨hk, rfl⟩) (fun k hk => Or.inl ⟨hk, rfl⟩) ha

theorem sampled_before_stop {id : String} {s : System} (ho : s.Ordered id) {i j : ℕ}
    (hi : s.ToldRunning id i) (hj : s.ToldRunning id j) :
    s.sampledAt i < s.stoppedAt j ∧ s.sampledAt j < s.stoppedAt i :=
  ⟨ho.before i j (Or.inr hi) ⟨true, hj⟩, ho.before j i (Or.inr hj) ⟨true, hi⟩⟩

/-- **At most one.**  In every interleaving of stop requests, with other uses of the manager that do
not start the process: of requests among which one has always stopped before the other sampled, at
most one is told that the process was running. -/
theorem wasRunning_subsingleton (id : String) (d : Daemon) (targets : ℕ → String)
    (acts : List Act) (requests : Set ℕ)
    (hacts : Along System.step (KeepsStopped id) (System.start d targets) acts)
    (hapart : requests.Pairwise fun i j =>
      let s := acts.foldl System.step (System.start d targets)
      s.stoppedAt i ≤ s.sampledAt j ∨ s.stoppedAt j ≤ s.sampledAt i) :
    {i ∈ requests | (acts.foldl System.step (System.start d targets)).ToldRunning id i}.Subsingleton
    := by
  have ho : (acts.foldl System.step (System.start d targets)).Ordered id :=
    Along.invariant (System.Ordered · id) (ordered_step id) (ordered_start d targets id) hacts
  rintro i ⟨hi, hti⟩ j ⟨hj, htj⟩
  by_contra hne
  obtain ⟨hij, hji⟩ := sampled_before_stop ho hti htj
  have hdis := hapart hi hj hne
  simp only at hdis
  omega

/-- A daemon that runs one process. -/
def oneRunning : Daemon :=
  Daemon.step (Daemon.fresh 0 none ∅) (userHost, .startWithSpec (plainSpec demoId))

/-- Two stops of it, one after the other. -/
def stopTwice : List Act := [0, 0, 0, 0, 1, 1, 1, 1].map (Act.advance userHost)

theorem wasRunning_subsingleton_twice :
    let s := stopTwice.foldl System.step (System.start oneRunning fun _ => demoId)
    s.ToldRunning demoId 0 ∧ {i ∈ ({0, 1} : Set ℕ) | s.ToldRunning demoId i}.Subsingleton := by
  refine ⟨?_, wasRunning_subsingleton demoId oneRunning (fun _ => demoId) stopTwice {0, 1} ?_ ?_⟩
  · unfold System.ToldRunning
    decide +kernel
  · exact along_of_forall _ fun a ha s => by
      obtain ⟨i, -, rfl⟩ := List.mem_map.mp ha
      trivial
  · have h0 : (stopTwice.foldl System.step (System.start oneRunning fun _ => demoId)).stoppedAt 0 ≤
        (stopTwice.foldl System.step (System.start oneRunning fun _ => demoId)).sampledAt 1 := by
      decide +kernel
    rintro i (rfl | rfl) j (rfl | rfl) hne
    · exact absurd rfl hne
    · exact Or.inl h0
    · exact Or.inr h0
    · exact absurd rfl hne

/-- Two stops of it whose samples both come before the stops. -/
def stopTogether : List Act := [0, 0, 0, 1, 1, 1, 0, 1].map (Act.advance userHost)

/-- Both requests are told that the process was running. -/
theorem both_told_running :
    let s := stopTogether.foldl System.step (System.start oneRunning fun _ => demoId)
    active oneRunning demoId = true ∧ s.ToldRunning demoId 0 ∧ s.ToldRunning demoId 1 := by
  unfold System.ToldRunning
  decide +kernel

end Stopping

end Unitpm
