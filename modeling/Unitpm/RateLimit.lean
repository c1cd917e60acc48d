import Unitpm.Host
import Unitpm.Lib.Str
import Unitpm.Lib.TokenBucket
import Mathlib.Data.Rat.Floor
import Mathlib.Tactic.FieldSimp
import Mathlib.Tactic.NormNum

/-! # The rate limiter of the socket

`ipc::transport::ratelimit`: one token bucket for every user id, in one map, with one counter
that makes every 1024th call drop the buckets that have been idle for five minutes.  Tokens and
times (in seconds) are exact rationals; a call carries the instant it reads from the clock.

`Instant::checked_sub` depends on the platform: `earliest` is the first instant the clock can
represent, `none` where there is no such bound.

Every user's bucket is compared with a bucket that nobody else touches (`TokenBucket.alone`).
While five minutes are enough to fill a bucket, dropping it changes no answer
(`served_eq_alone`); from that follow the bound on the calls granted in a window of time and the
independence of one user's answers of the calls of the others. -/

namespace Unitpm.RateLimit

open TokenBucket

/-! ### The limiter -/

/-- `DEFAULT_RATE_CAPACITY`. -/
def defaultRateCapacity : ℤ := 200

/-- `DEFAULT_RATE_REFILL`. -/
def defaultRateRefill : ℤ := 100

/-- `MIN_REFILL_INTERVAL`: one millisecond. -/
def minRefillInterval : ℚ := 1 / 1000

/-- `IDLE_EVICTION_WINDOW`: five minutes. -/
def idleEvictionWindow : ℚ := 5 * 60

/-- `SWEEP_EVERY_N`. -/
def sweepEveryN : ℕ := 1024

/-- The state behind the limiter's lock. -/
structure Inner where
  buckets : UInt32 → Option (Bucket ℚ)
  capacity : ℚ
  refillRate : ℚ
  sweepCounter : ℕ

/-- `HashMap::insert`. -/
def Inner.insert (s : Inner) (uid : UInt32) (b : Bucket ℚ) : Inner :=
  { s with buckets := fun k => if k = uid then some b else s.buckets k }

/-- `RateLimiter::with_capacity_and_refill`. -/
def withCapacityAndRefill (capacity refillRate : ℚ) : Inner where
  buckets := fun _ => none
  capacity := capacity
  refillRate := refillRate
  sweepCounter := 0

/-- `env::int`. -/
def int (env : DaemonEnv) (key : String) (fallback : ℤ) : ℤ :=
  match env.var key with
  | some v =>
      match Rust.Str.parseSigned (2 ^ 63) (2 ^ 63 - 1) v.toList with
      | some n => if 0 < n then n else fallback
      | none => fallback
  | none => fallback

/-- `new_rate_limiter`. -/
def newRateLimiter (env : DaemonEnv) : Inner :=
  withCapacityAndRefill (int env "UNITPM_IPC_RATE_BURST" defaultRateCapacity)
    (int env "UNITPM_IPC_RATE_PER_SEC" defaultRateRefill)

/-- `Instant::checked_sub` on a clock whose first instant is `earliest`. -/
def checkedSub (earliest : Option ℚ) (now d : ℚ) : Option ℚ :=
  match earliest with
  | none => some (now - d)
  | some m => if now - d < m then none else some (now - d)

/-- The instant before which a bucket must have been filled last to be dropped. -/
def cutoff (earliest : Option ℚ) (now : ℚ) : ℚ :=
  (checkedSub earliest now idleEvictionWindow).getD now

/-- `Inner::maybe_sweep`. -/
def maybeSweep (earliest : Option ℚ) (now : ℚ) (s : Inner) : Inner :=
  let n := s.sweepCounter + 1
  if n < sweepEveryN then { s with sweepCounter := n }
  else
    { s with
      sweepCounter := 0
      buckets := fun k => (s.buckets k).filter fun b => cutoff earliest now ≤ b.lastFill }

/-- `RateLimiter::allow`, called by `uid` at the instant `now`. -/
def allow (earliest : Option ℚ) (s : Inner) (uid : UInt32) (now : ℚ) : Inner × Bool :=
  let inner := maybeSweep earliest now s
  let entry := (inner.buckets uid).getD ⟨inner.capacity, now⟩
  let elapsed := max 0 (now - entry.lastFill)
  let entry :=
    if minRefillInterval < elapsed then
      let tokens := entry.tokens + elapsed * inner.refillRate
      ⟨if inner.capacity < tokens then inner.capacity else tokens, now⟩
    else entry
  if entry.tokens < 1 then (inner.insert uid entry, false)
  else (inner.insert uid { entry with tokens := entry.tokens - 1 }, true)

/-- One call of a history: who calls, and when. -/
abbrev Call := UInt32 × ℚ

/-- `allow` as a step of the machine that `Run` drives. -/
def call (earliest : Option ℚ) (s : Inner) (c : Call) : Inner × Bool := allow earliest s c.1 c.2

/-- The calls of `u` in a history, each with the answer it gets. -/
def served (earliest : Option ℚ) (u : UInt32) (s : Inner) (l : List Call) : List (ℚ × Bool) :=
  ((l.zip (Run.outputs (call earliest) s l)).filter fun c => c.1.1 = u).map fun c => (c.1.2, c.2)

/-- When `u` calls. -/
def timesOf (u : UInt32) (l : List Call) : List ℚ := (l.filter fun c => c.1 = u).map Prod.snd

theorem served_cons (earliest : Option ℚ) (u : UInt32) (s : Inner) (c : Call) (l : List Call) :
    served earliest u s (c :: l) =
      (if c.1 = u then [(c.2, (call earliest s c).2)] else []) ++
        served earliest u (call earliest s c).1 l := by
  rw [served, Run.outputs, List.zip_cons_cons, List.filter_cons]
  split <;> simp_all [served]

theorem timesOf_cons (u : UInt32) (c : Call) (l : List Call) :
    timesOf u (c :: l) = (if c.1 = u then [c.2] else []) ++ timesOf u l := by
  rw [timesOf, List.filter_cons]
  split <;> simp_all [timesOf]

theorem served_append (earliest : Option ℚ) (u : UInt32) (s : Inner) (l m : List Call) :
    served earliest u s (l ++ m) = served earliest u s l ++
      served earliest u (Run.final (call earliest) s l) m := by
  induction l generalizing s with
  | nil => rfl
  | cons c l ih => rw [List.cons_append, served_cons, served_cons, ih, List.append_assoc]; rfl

/-! ### One call -/

section Call

variable {e : Option ℚ} {u v : UInt32} {s : Inner} {now t : ℚ}

@[simp] theorem capacity_maybeSweep : (maybeSweep e t s).capacity = s.capacity := by
  unfold maybeSweep
  dsimp only
  split <;> rfl

@[simp] theorem refillRate_maybeSweep : (maybeSweep e t s).refillRate = s.refillRate := by
  unfold maybeSweep
  dsimp only
  split <;> rfl

theorem buckets_maybeSweep (e : Option ℚ) (t : ℚ) (s : Inner) (u : UInt32) :
    (maybeSweep e t s).buckets u = s.buckets u ∨
      (maybeSweep e t s).buckets u = none ∧
        ∃ b, s.buckets u = some b ∧ b.lastFill < cutoff e t := by
  unfold maybeSweep
  dsimp only
  split
  · exact Or.inl rfl
  · cases hb : s.buckets u with
    | none => left; simp [hb]
    | some b =>
        by_cases hc : cutoff e t ≤ b.lastFill
        · left; simp [hb, hc]
        · right
          exact ⟨by simpa [hb] using not_le.mp hc, b, rfl, not_le.mp hc⟩

/-- The rule by which the buckets of the limiter fill. -/
structure Follows (p : Rule ℚ) (s : Inner) : Prop where
  capacity : s.capacity = p.capacity
  refillRate : s.refillRate = p.rate
  grain : p.grain = minRefillInterval

theorem allow_eq {p : Rule ℚ} (h : Follows p s) :
    allow e s u t =
      let r := take (refill p t (((maybeSweep e t s).buckets u).getD ⟨p.capacity, t⟩))
      ((maybeSweep e t s).insert u r.1, r.2) := by
  have hm : ∀ x : ℚ, (if p.capacity < x then p.capacity else x) = min p.capacity x := by
    intro x
    rw [min_def]
    split <;> split <;> first | rfl | linarith
  unfold allow
  simp only [capacity_maybeSweep, refillRate_maybeSweep, h.capacity, h.refillRate, hm]
  simp only [take, refill, Bucket.elapsed, h.grain]
  split_ifs <;> rfl

theorem buckets_allow_self {p : Rule ℚ} (h : Follows p s) :
    (allow e s u t).1.buckets u = (serve p ((maybeSweep e t s).buckets u) t).1 := by
  rw [allow_eq h]
  simp [Inner.insert, serve]

theorem allow_snd {p : Rule ℚ} (h : Follows p s) :
    (allow e s u t).2 = (serve p ((maybeSweep e t s).buckets u) t).2 := by
  rw [allow_eq h]
  rfl

theorem buckets_allow_of_ne {p : Rule ℚ} (h : Follows p s) (hv : v ≠ u) :
    (allow e s v t).1.buckets u = (maybeSweep e t s).buckets u := by
  rw [allow_eq h]
  simp [Inner.insert, Ne.symm hv]

theorem sweepCounter_allow {p : Rule ℚ} (h : Follows p s) :
    (allow e s u t).1.sweepCounter = (maybeSweep e t s).sweepCounter := by
  rw [allow_eq h]
  rfl

theorem Follows.allow {p : Rule ℚ} (h : Follows p s) : Follows p (allow e s u t).1 := by
  rw [allow_eq h]
  exact ⟨capacity_maybeSweep.trans h.capacity, refillRate_maybeSweep.trans h.refillRate, h.grain⟩

end Call

/-! ### The limiter refines one bucket for each user -/

section Alone

variable {u : UInt32} {s : Inner} {o : Option (Bucket ℚ)} {now t : ℚ} {l : List Call}

/-- At time `now` the bucket of `u` is the one nobody else touches, or it has been dropped and
that one has been idle for longer than the eviction window. -/
structure Mirrors (p : Rule ℚ) (u : UInt32) (now : ℚ) (s : Inner) (o : Option (Bucket ℚ)) :
    Prop where
  follows : Follows p s
  inv : ∀ b ∈ o, b.Inv p now
  bucket : s.buckets u = o ∨
    s.buckets u = none ∧ ∃ b, o = some b ∧ idleEvictionWindow < now - b.lastFill

theorem cutoff_none (t : ℚ) : cutoff none t = t - idleEvictionWindow := rfl

theorem Mirrors.sweep {p : Rule ℚ} (h : Mirrors p u now s o) (ht : now ≤ t) :
    (maybeSweep none t s).buckets u = o ∨
      (maybeSweep none t s).buckets u = none ∧
        ∃ b, o = some b ∧ idleEvictionWindow < t - b.lastFill := by
  rcases h.bucket with he | ⟨he, b, ho, hb⟩
  · rcases buckets_maybeSweep none t s u with h1 | ⟨h1, b, hb, hc⟩
    · exact Or.inl (h1.trans he)
    · rw [cutoff_none] at hc
      exact Or.inr ⟨h1, b, he ▸ hb, by linarith⟩
  · have h1 : (maybeSweep none t s).buckets u = none := by
      rcases buckets_maybeSweep none t s u with h1 | ⟨h1, -⟩
      · exact h1.trans he
      · exact h1
    exact Or.inr ⟨h1, b, ho, by linarith⟩

theorem Mirrors.other {p : Rule ℚ} {v : UInt32} (h : Mirrors p u now s o) (hv : v ≠ u)
    (ht : now ≤ t) : Mirrors p u t (allow none s v t).1 o := by
  refine ⟨h.follows.allow, fun b hb => (h.inv b hb).mono ht, ?_⟩
  rw [buckets_allow_of_ne h.follows hv]
  exact h.sweep ht

/-- After the sweep the bucket answers as the one nobody else touches: if it was dropped, that
one has filled up in the meantime. -/
theorem Mirrors.serve_eq {p : Rule ℚ} (hp : p.capacity ≤ idleEvictionWindow * p.rate)
    (h : Mirrors p u now s o) (ht : now ≤ t) :
    serve p ((maybeSweep none t s).buckets u) t = serve p o t := by
  rcases h.sweep ht with he | ⟨he, b, rfl, hb⟩
  · rw [he]
  · have h1 : p.grain < t - b.lastFill := by
      rw [h.follows.grain]
      exact lt_trans (by norm_num [minRefillInterval, idleEvictionWindow]) hb
    have h2 : p.capacity ≤ (t - b.lastFill) * p.rate :=
      hp.trans (mul_le_mul_of_nonneg_right hb.le p.rate_nonneg)
    rw [he, serve_of_full (h.inv b rfl).nonneg h1 h2]

theorem Mirrors.self {p : Rule ℚ} (hp : p.capacity ≤ idleEvictionWindow * p.rate)
    (h : Mirrors p u now s o) (ht : now ≤ t) :
    Mirrors p u t (allow none s u t).1 (serve p o t).1 ∧
      (allow none s u t).2 = (serve p o t).2 := by
  rw [allow_snd h.follows, h.serve_eq hp ht]
  refine ⟨⟨h.follows.allow, inv_serve fun b hb => (h.inv b hb).mono ht, Or.inl ?_⟩, rfl⟩
  rw [buckets_allow_self h.follows, h.serve_eq hp ht]

/-- **Isolation.**  While a bucket fills up within the eviction window, the answers that `u` gets
are those of a bucket of its own. -/
theorem served_eq_alone {p : Rule ℚ} (hp : p.capacity ≤ idleEvictionWindow * p.rate)
    (h : Mirrors p u now s o) (hl : (now :: l.map Prod.snd).Pairwise (· ≤ ·)) :
    served none u s l = (timesOf u l).zip (alone p o (timesOf u l)) := by
  induction l generalizing s o now with
  | nil => rfl
  | cons c l ih =>
      obtain ⟨v, t⟩ := c
      obtain ⟨hle, hl⟩ := List.pairwise_cons.mp hl
      have ht : now ≤ t := hle t (by simp)
      rw [served_cons, timesOf_cons]
      by_cases hv : v = u
      · subst hv
        obtain ⟨h', hr⟩ := h.self hp ht
        simp only [if_true, call, hr, ih h' hl]
        rfl
      · simp only [hv, if_false, call, List.nil_append]
        exact ih (h.other hv ht) hl

/-- The rule of a limiter with the given capacity and refill rate. -/
def ruleOf (capacity refillRate : ℚ) (hc : 0 ≤ capacity) (hr : 0 ≤ refillRate) : Rule ℚ where
  capacity := capacity
  rate := refillRate
  grain := minRefillInterval
  capacity_nonneg := hc
  rate_nonneg := hr
  grain_nonneg := by norm_num [minRefillInterval]

theorem follows_new {capacity refillRate : ℚ} (hc : 0 ≤ capacity) (hr : 0 ≤ refillRate) :
    Follows (ruleOf capacity refillRate hc hr) (withCapacityAndRefill capacity refillRate) :=
  ⟨rfl, rfl, rfl⟩

theorem served_new {capacity refillRate : ℚ} (hc : 0 ≤ capacity) (hr : 0 ≤ refillRate)
    (h : capacity ≤ idleEvictionWindow * refillRate) (u : UInt32)
    (hl : (l.map Prod.snd).Pairwise (· ≤ ·)) :
    served none u (withCapacityAndRefill capacity refillRate) l =
      (timesOf u l).zip (alone (ruleOf capacity refillRate hc hr) none (timesOf u l)) := by
  cases l with
  | nil => rfl
  | cons c l =>
      have hm : Mirrors (ruleOf capacity refillRate hc hr) u c.2
          (withCapacityAndRefill capacity refillRate) none :=
        ⟨follows_new hc hr, by simp, Or.inl rfl⟩
      apply served_eq_alone h hm
      refine List.pairwise_cons.mpr ⟨?_, hl⟩
      intro t ht
      rcases List.mem_cons.mp ht with rfl | ht
      · exact le_refl _
      · exact (List.pairwise_cons.mp hl).1 t ht

theorem pairwise_timesOf (u : UInt32) (hl : (l.map Prod.snd).Pairwise (· ≤ ·)) :
    (timesOf u l).Pairwise (· ≤ ·) :=
  hl.sublist ((List.filter_sublist).map _)

/-- **The rate bound.**  However the calls of all users interleave, the calls of one user that a
window of length `T` sees granted are at most a full bucket and the refill of that time and of
one skipped gap. -/
theorem allow_rate_bound (capacity refillRate : ℚ) (hc : 0 < capacity) (hr : 0 < refillRate)
    (hcr : capacity ≤ 300 * refillRate) (u : UInt32) (l : List Call)
    (hl : (l.map Prod.snd).Pairwise (· ≤ ·)) (a T : ℚ) (hT : 0 ≤ T) :
    ((served none u (withCapacityAndRefill capacity refillRate) l).countP
        (fun c => decide (a ≤ c.1 ∧ c.1 ≤ a + T) && c.2) : ℚ) ≤
      capacity + refillRate * (T + 1 / 1000) := by
  have hw : capacity ≤ idleEvictionWindow * refillRate := by
    rw [show idleEvictionWindow = 300 by norm_num [idleEvictionWindow]]
    exact hcr
  have hb := grants_le (p := ruleOf capacity refillRate hc.le hr.le) (o := none) (a := a)
    (e := a + T) (by linarith) (pairwise_timesOf u hl) (by simp)
  rw [served_new hc.le hr.le hw u hl]
  rw [add_sub_cancel_left] at hb
  exact hb

/-- Two users; the first one empties its bucket and calls again a little later. -/
theorem allow_rate_bound_default :
    let l : List Call := [(1000, 0), (1000, 0), (1001, 1 / 2), (1000, 1)]
    served none 1000 (withCapacityAndRefill 2 1) l = [(0, true), (0, true), (1, true)] ∧
      ((served none 1000 (withCapacityAndRefill 2 1) l).countP
        (fun c => decide ((0 : ℚ) ≤ c.1 ∧ c.1 ≤ 0 + 1) && c.2) : ℚ) ≤ 2 + 1 * (1 + 1 / 1000) :=
  ⟨by decide +kernel,
    allow_rate_bound 2 1 (by norm_num) (by norm_num) (by norm_num) 1000 _ (by decide +kernel) 0 1
      (by norm_num)⟩

end Alone

/-! ### Isolation -/

/-- A history of calls: in the order of their times, all of which the clock can represent. -/
structure History (earliest : Option ℚ) (l : List Call) : Prop where
  sorted : (l.map Prod.snd).Pairwise (· ≤ ·)
  instants : ∀ m ∈ earliest, ∀ c ∈ l, m ≤ c.2

/-- The answers a user gets depend on the times of its own calls only. -/
def Isolated (earliest : Option ℚ) (s : Inner) : Prop :=
  ∀ (u : UInt32) (l l' : List Call), History earliest l → History earliest l' →
    timesOf u l = timesOf u l' → served earliest u s l = served earliest u s l'

theorem isolated_of_le {capacity refillRate : ℚ} (hc : 0 ≤ capacity) (hr : 0 ≤ refillRate)
    (h : capacity ≤ idleEvictionWindow * refillRate) :
    Isolated none (withCapacityAndRefill capacity refillRate) := by
  intro u l l' hl hl' ht
  rw [served_new hc hr h u hl.sorted, served_new hc hr h u hl'.sorted, ht]

section Drained

variable {e : Option ℚ} {p : Rule ℚ} {u v : UInt32} {s : Inner} {t x : ℚ} {n : ℕ}

/-- The bucket that a call of `u` at time `t` would find if no sweep came before it. -/
def level (s : Inner) (u : UInt32) (t : ℚ) : Bucket ℚ := (s.buckets u).getD ⟨s.capacity, t⟩

theorem cutoff_le (e : Option ℚ) (t : ℚ) : cutoff e t ≤ t := by
  have h : t - idleEvictionWindow ≤ t := by norm_num [idleEvictionWindow]
  unfold cutoff checkedSub
  split
  · exact h
  · split
    · exact le_refl t
    · exact h

theorem level_maybeSweep (hx : level s u t = ⟨x, t⟩) :
    level (maybeSweep e t s) u t = ⟨x, t⟩ := by
  rcases buckets_maybeSweep e t s u with h | ⟨-, b, hb, hc⟩
  · rw [level, h, capacity_maybeSweep]
    exact hx
  · obtain rfl : b = ⟨x, t⟩ := by simpa [level, hb] using hx
    exact absurd (cutoff_le e t) (not_le.mpr hc)

theorem level_allow_of_ne (h : Follows p s) (hv : v ≠ u) (hx : level s u t = ⟨x, t⟩) :
    level (allow e s v t).1 u t = ⟨x, t⟩ := by
  rw [level, buckets_allow_of_ne h hv, h.allow.capacity, ← h.capacity,
    ← capacity_maybeSweep (e := e) (t := t)]
  exact level_maybeSweep hx

theorem serve_level (h : Follows p s) (hx : level s u t = ⟨x, t⟩) :
    serve p ((maybeSweep e t s).buckets u) t =
      (some (take ⟨x, t⟩).1, (take ⟨x, t⟩).2) := by
  have hs := level_maybeSweep (e := e) hx
  rw [level, capacity_maybeSweep, h.capacity] at hs
  rw [serve, hs, refill_self]

theorem level_allow_self (h : Follows p s) (hx : level s u t = ⟨x, t⟩) (h1 : 1 ≤ x) :
    level (allow e s u t).1 u t = ⟨x - 1, t⟩ := by
  rw [level, buckets_allow_self h, serve_level h hx]
  simp [take, not_lt.mpr h1]

theorem allow_snd_level (h : Follows p s) (hx : level s u t = ⟨x, t⟩) :
    (allow e s u t).2 = decide (1 ≤ x) := by
  rw [allow_snd h, serve_level h hx]
  by_cases h1 : 1 ≤ x
  · simp [take, h1, not_lt.mpr h1]
  · simp [take, h1, not_le.mp h1]

/-- Calls at one instant are granted while there are tokens. -/
theorem served_replicate_iff (h : Follows p s) (hx : level s u t = ⟨x, t⟩) (hx0 : 0 ≤ x) :
    served e u s (List.replicate n (u, t)) = List.replicate n (t, true) ↔ (n : ℚ) ≤ x := by
  induction n generalizing s x with
  | zero => simpa [served] using hx0
  | succ n ih =>
      rw [List.replicate_succ, List.replicate_succ, served_cons]
      simp only [if_true, call, allow_snd_level h hx, List.cons_append, List.nil_append,
        List.cons.injEq, Prod.mk.injEq, true_and, decide_eq_true_eq]
      push_cast
      constructor
      · rintro ⟨h1, hr⟩
        have := (ih h.allow (level_allow_self h hx h1) (by linarith)).mp hr
        linarith
      · intro hn
        have h0 : (0 : ℚ) ≤ n := Nat.cast_nonneg n
        have h1 : 1 ≤ x := by linarith
        exact ⟨h1, (ih h.allow (level_allow_self h hx h1) (by linarith)).mpr (by linarith)⟩

theorem Follows.final (h : Follows p s) (l : List Call) :
    Follows p (Run.final (call e) s l) :=
  Run.invariant (Follows p) (fun _ _ hs => hs.allow) l h

theorem level_final_self (h : Follows p s) (hx : level s u t = ⟨x, t⟩) (hn : (n : ℚ) ≤ x) :
    level (Run.final (call e) s (List.replicate n (u, t))) u t = ⟨x - n, t⟩ := by
  induction n generalizing s x with
  | zero => simpa [Run.final] using hx
  | succ n ih =>
      push_cast at hn
      have h0 : (0 : ℚ) ≤ n := Nat.cast_nonneg n
      have := ih h.allow (level_allow_self (e := e) h hx (by linarith))
        (by linarith)
      rw [List.replicate_succ, Run.final, List.foldl_cons]
      push_cast
      rw [← sub_sub, sub_right_comm]
      exact this

theorem level_final_of_ne (h : Follows p s) (hv : v ≠ u) (hx : level s u t = ⟨x, t⟩) :
    level (Run.final (call e) s (List.replicate n (v, t))) u t = ⟨x, t⟩ := by
  induction n generalizing s with
  | zero => exact hx
  | succ n ih => exact ih h.allow (level_allow_of_ne h hv hx)

theorem sweepCounter_maybeSweep (hs : s.sweepCounter < sweepEveryN) :
    (maybeSweep e t s).sweepCounter = (s.sweepCounter + 1) % sweepEveryN := by
  unfold maybeSweep
  unfold sweepEveryN at *
  dsimp only
  split <;> dsimp only <;> omega

theorem sweepCounter_final (h : Follows p s) (hs : s.sweepCounter < sweepEveryN) (l : List Call) :
    (Run.final (call e) s l).sweepCounter = (s.sweepCounter + l.length) % sweepEveryN := by
  induction l generalizing s with
  | nil => exact (Nat.mod_eq_of_lt hs).symm
  | cons c l ih =>
      have h1 : (call e s c).1.sweepCounter = (s.sweepCounter + 1) % sweepEveryN := by
        rw [call, sweepCounter_allow h, sweepCounter_maybeSweep hs]
      have h2 := ih (s := (call e s c).1) h.allow (h1 ▸ Nat.mod_lt _ (by decide))
      rw [h1, Nat.mod_add_mod] at h2
      rw [Run.final, List.foldl_cons, List.length_cons]
      rw [Run.final] at h2
      rw [h2]
      congr 1
      omega

/-- Enough calls of other users drop a bucket that is old enough. -/
theorem buckets_final_none (h : Follows p s) (hv : v ≠ u) (hs : s.sweepCounter < sweepEveryN)
    (hb : ∀ b ∈ s.buckets u, b.lastFill < cutoff e t)
    (hn : s.buckets u = none ∨ sweepEveryN ≤ s.sweepCounter + n) :
    (Run.final (call e) s (List.replicate n (v, t))).buckets u = none := by
  induction n generalizing s with
  | zero => exact hn.resolve_right (by omega)
  | succ n ih =>
      have hc : (call e s (v, t)).1.sweepCounter = (s.sweepCounter + 1) % sweepEveryN := by
        rw [call, sweepCounter_allow h, sweepCounter_maybeSweep hs]
      have hu : (call e s (v, t)).1.buckets u = (maybeSweep e t s).buckets u :=
        buckets_allow_of_ne h hv
      refine ih (s := (call e s (v, t)).1) h.allow (hc ▸ Nat.mod_lt _ (by decide)) ?_ ?_
      · rw [hu]
        rcases buckets_maybeSweep e t s u with h' | ⟨h', -⟩
        · rwa [h']
        · simp [h']
      · rw [hu, hc]
        by_cases hlt : s.sweepCounter + 1 < sweepEveryN
        · rw [Nat.mod_eq_of_lt hlt, maybeSweep, if_pos hlt]
          exact hn.imp id (by omega)
        · left
          rw [maybeSweep, if_neg hlt]
          rw [Option.filter_eq_none_iff]
          intro b hb'
          simpa using hb b hb'

/-- Empty the bucket of user `0` at time `t`, and bring the counter back to `0` with calls of
user `1`. -/
def drain (n : ℕ) (t : ℚ) : List Call :=
  List.replicate n (0, t) ++ List.replicate (1023 * n) (1, t)

theorem buckets_drain {n : ℕ} (h : Follows p s) (hs : s.buckets 0 = none) (hn : p.capacity = n)
    (hn0 : 0 < n) :
    (Run.final (call e) s (drain n t)).buckets 0 = some ⟨0, t⟩ := by
  have hx : level s 0 t = ⟨n, t⟩ := by rw [level, hs, Option.getD_none, h.capacity, hn]
  have h1 := level_final_self (e := e) h hx (le_refl (n : ℚ))
  have h2 := level_final_of_ne (n := 1023 * n) (v := 1) (e := e) (h.final _)
    (by decide) h1
  rw [sub_self, ← Run.final_append, ← drain, level, (h.final _).capacity, hn] at h2
  cases hb : (Run.final (call e) s (drain n t)).buckets 0 with
  | some b =>
      rw [hb] at h2
      exact congrArg some h2
  | none =>
      rw [hb] at h2
      have : (n : ℚ) = 0 := congrArg Bucket.tokens h2
      rw [Nat.cast_eq_zero] at this
      omega

theorem sweepCounter_drain {n : ℕ} (h : Follows p s) (hs : s.sweepCounter = 0) :
    (Run.final (call e) s (drain n t)).sweepCounter = 0 := by
  rw [sweepCounter_final h (by rw [hs]; decide), hs]
  simp only [drain, List.length_append, List.length_replicate, sweepEveryN]
  omega

theorem served_of_forall_ne {l : List Call} (hl : ∀ c ∈ l, c.1 ≠ u) :
    served e u s l = [] := by
  rw [served, List.map_eq_nil_iff, List.filter_eq_nil_iff]
  rintro ⟨c, r⟩ hc
  simpa using hl c (List.of_mem_zip hc).1

theorem timesOf_of_forall_ne {l : List Call} (hl : ∀ c ∈ l, c.1 ≠ u) : timesOf u l = [] := by
  rw [timesOf, List.map_eq_nil_iff, List.filter_eq_nil_iff]
  intro c hc
  simpa using hl c hc

theorem timesOf_append (u : UInt32) (l m : List Call) :
    timesOf u (l ++ m) = timesOf u l ++ timesOf u m := by
  rw [timesOf, List.filter_append, List.map_append]
  rfl

theorem history_append {l m : List Call} {t₀ t₁ : ℚ} (hl : ∀ c ∈ l, c.2 = t₀)
    (hm : ∀ c ∈ m, c.2 = t₁) (hle : t₀ ≤ t₁) (he : ∀ m ∈ e, m ≤ t₀) :
    History e (l ++ m) := by
  have hall : ∀ c ∈ l ++ m, t₀ ≤ c.2 := by
    intro c hc
    rcases List.mem_append.mp hc with h | h
    · exact (hl c h).ge
    · exact hle.trans (hm c h).ge
  refine ⟨?_, fun m hm c hc => (he m hm).trans (hall c hc)⟩
  rw [List.pairwise_map, List.pairwise_append]
  refine ⟨?_, ?_, fun a ha b hb => (hl a ha).le.trans (hall b (by simp [hb]))⟩
  · exact List.pairwise_of_forall_mem_list fun a ha b hb => (hl a ha).le.trans (hl b hb).ge
  · exact List.pairwise_of_forall_mem_list fun a ha b hb => (hm a ha).le.trans (hm b hb).ge

theorem snd_of_mem_drain {n : ℕ} : ∀ c ∈ drain n t, c.2 = t := by
  intro c hc
  simp only [drain, List.mem_append, List.mem_replicate] at hc
  rcases hc with ⟨-, rfl⟩ | ⟨-, rfl⟩ <;> rfl

/-- **Another user's calls are visible.**  The bucket of user `0` is emptied at `t₀`; at `t₁` a
sweep may drop it.  If user `0` then gets `n` grants out of a new bucket but not out of its own,
its answers depend on whether user `1` has brought the sweep about. -/
theorem not_isolated (n : ℕ) (t₀ t₁ : ℚ) {capacity : ℕ} (h : Follows p s) (hs : s.buckets 0 = none)
    (hs0 : s.sweepCounter = 0) (hcap : p.capacity = capacity) (hpos : 0 < capacity)
    (hn : n ≤ capacity) (hle : t₀ ≤ t₁) (hm : ∀ m ∈ e, m ≤ t₀)
    (hcut : t₀ < cutoff e t₁)
    (hB : ∀ s', Follows p s' → s'.buckets 0 = some ⟨0, t₀⟩ → s'.sweepCounter = 0 →
      served e 0 s' (List.replicate n (0, t₁)) ≠ List.replicate n (t₁, true)) :
    ¬ Isolated e s := by
  intro hiso
  set crowd : List Call := List.replicate sweepEveryN (1, t₁) with hcrowd
  set calls : List Call := List.replicate n (0, t₁) with hcalls
  have hf := h.final (e := e) (drain capacity t₀)
  have hb := buckets_drain (e := e) (t := t₀) h hs hcap hpos
  have hc := sweepCounter_drain (e := e) (t := t₀) (n := capacity) h hs0
  -- after the calls of user 1, user 0 finds a new bucket
  have hgone := buckets_final_none (n := sweepEveryN) (e := e) (t := t₁) (v := 1)
    (u := 0) hf (by decide) (by rw [hc]; decide) (by simpa [hb] using hcut)
    (Or.inr (Nat.le_add_left _ _))
  have hfull := (served_replicate_iff (n := n) (u := 0) (t := t₁) (x := capacity)
    (e := e) (hf.final crowd)
    (by rw [level, hgone, Option.getD_none, (hf.final _).capacity, hcap])
    (Nat.cast_nonneg _)).mpr (by exact_mod_cast hn)
  have hother : ∀ c ∈ crowd, c.1 ≠ 0 := by
    intro c hc
    rw [List.eq_of_mem_replicate hc]
    exact (by decide : (1 : UInt32) ≠ 0)
  have h₁ : ∀ c ∈ calls, c.2 = t₁ := by
    intro c hc
    rw [List.eq_of_mem_replicate hc]
  have h₂ : ∀ c ∈ crowd ++ calls, c.2 = t₁ := by
    intro c hc
    rcases List.mem_append.mp hc with hc | hc <;> rw [List.eq_of_mem_replicate hc]
  have htimes : timesOf 0 (drain capacity t₀ ++ (crowd ++ calls)) =
      timesOf 0 (drain capacity t₀ ++ calls) := by
    rw [timesOf_append, timesOf_append, timesOf_append, timesOf_of_forall_ne hother,
      List.nil_append]
  have heq := hiso 0 _ _ (history_append snd_of_mem_drain h₂ hle hm)
    (history_append snd_of_mem_drain h₁ hle hm) htimes
  rw [served_append, served_append, served_append, served_of_forall_ne hother, List.nil_append,
    List.append_cancel_left_eq, hfull] at heq
  exact hB _ hf hb hc heq.symm

theorem buckets_maybeSweep_of_zero (hs : s.sweepCounter = 0) (t : ℚ) (u : UInt32) :
    (maybeSweep e t s).buckets u = s.buckets u := by
  rw [maybeSweep, hs, if_pos (by decide)]

/-- On a clock with a first instant, a sweep soon after it drops every bucket. -/
theorem not_isolated_of_earliest {capacity : ℕ} {m : ℚ} (h : Follows p s)
    (hs : s.buckets 0 = none) (hs0 : s.sweepCounter = 0) (hcap : p.capacity = capacity)
    (hpos : 0 < capacity) : ¬ Isolated (some m) s := by
  have hw : idleEvictionWindow = 300 := by norm_num [idleEvictionWindow]
  have hg : minRefillInterval = 1 / 1000 := rfl
  have hcut : cutoff (some m) (m + minRefillInterval) = m + minRefillInterval := by
    have : m + minRefillInterval - idleEvictionWindow < m := by
      rw [hw, hg]
      linarith
    rw [cutoff, checkedSub, if_pos this, Option.getD_none]
  have hpos' : 0 < minRefillInterval := by norm_num [minRefillInterval]
  refine not_isolated 1 m (m + minRefillInterval) h hs hs0 hcap hpos hpos (by linarith)
    (by simp) (by linarith) ?_
  intro s' hf hb hc
  have hdeny : (allow (some m) s' 0 (m + minRefillInterval)).2 = false := by
    rw [allow_snd hf, buckets_maybeSweep_of_zero hc, hb]
    simp [serve, refill, Bucket.elapsed, hf.grain, hpos'.le, take]
  simp [List.replicate_one, served_cons, call, hdeny]

/-- Where a bucket takes longer to fill than a sweep lets it be idle, it comes back full too
early. -/
theorem not_isolated_of_lt {capacity rate : ℕ} (h : Follows p s) (hs : s.buckets 0 = none)
    (hs0 : s.sweepCounter = 0) (hcap : p.capacity = capacity) (hrate : p.rate = rate)
    (hr : 0 < rate) (hlt : 300 * rate < capacity) : ¬ Isolated none s := by
  have hr' : (1 : ℚ) ≤ rate := by exact_mod_cast hr
  have hlt' : (300 * rate + 1 : ℚ) ≤ capacity := by exact_mod_cast hlt
  have hw : idleEvictionWindow = 300 := by norm_num [idleEvictionWindow]
  have hg : minRefillInterval = 1 / 1000 := rfl
  have hτ : (0 : ℚ) < 1 / (2 * rate) := by positivity
  have hmul : (300 + 1 / (2 * rate)) * (rate : ℚ) = 300 * rate + 1 / 2 := by
    field_simp
  refine not_isolated (300 * rate + 1) 0 (300 + 1 / (2 * rate)) h hs hs0 hcap (by omega)
    hlt (by linarith) (by simp) (by rw [cutoff_none, hw]; linarith) ?_
  intro s' hf hb hc
  set t₁ : ℚ := 300 + 1 / (2 * rate)
  -- half a token more than the eviction window refills
  have hfill : refill p t₁ ⟨0, 0⟩ = ⟨300 * rate + 1 / 2, t₁⟩ := by
    have hel : (Bucket.mk 0 0 : Bucket ℚ).elapsed t₁ = t₁ := by
      rw [Bucket.elapsed, sub_zero, max_eq_right (by linarith)]
    rw [refill, hel, if_pos (by rw [hf.grain, hg]; linarith), hrate, hcap, zero_add, hmul,
      min_eq_right (by linarith)]
  have hserve : serve p (some ⟨0, 0⟩) t₁ = (some ⟨300 * rate + 1 / 2 - 1, t₁⟩, true) := by
    rw [serve, Option.getD_some, hfill, take, if_neg (by simp only; linarith)]
  have hres : (allow none s' 0 t₁).2 = true := by
    rw [allow_snd hf, buckets_maybeSweep_of_zero hc, hb, hserve]
  have hlev : level (allow none s' 0 t₁).1 0 t₁ = ⟨300 * rate + 1 / 2 - 1, t₁⟩ := by
    rw [level, buckets_allow_self hf, buckets_maybeSweep_of_zero hc, hb, hserve,
      Option.getD_some]
  have hrest := (served_replicate_iff (n := 300 * rate) (e := none) hf.allow hlev
    (by linarith)).not.mpr (by push_cast; linarith)
  rw [List.replicate_succ, List.replicate_succ, served_cons]
  simpa [call, hres] using hrest

end Drained

/-! ### The limiter of the daemon -/

theorem int_pos (env : DaemonEnv) (key : String) {fallback : ℤ} (h : 0 < fallback) :
    0 < int env key fallback := by
  unfold int
  split
  · split
    · split <;> assumption
    · exact h
  · exact h

/-- **Isolation, exactly.**  The answers a user gets from the daemon's limiter are independent of
the other users' calls if and only if a bucket refills within the eviction window, on a clock that
reaches back that far. -/
theorem isolated_iff (env : DaemonEnv) (earliest : Option ℚ) :
    Isolated earliest (newRateLimiter env) ↔
      int env "UNITPM_IPC_RATE_BURST" defaultRateCapacity ≤
          300 * int env "UNITPM_IPC_RATE_PER_SEC" defaultRateRefill ∧
        earliest = none := by
  obtain ⟨c, hc⟩ := Int.eq_ofNat_of_zero_le
    (int_pos env "UNITPM_IPC_RATE_BURST" (by decide : 0 < defaultRateCapacity)).le
  obtain ⟨r, hr⟩ := Int.eq_ofNat_of_zero_le
    (int_pos env "UNITPM_IPC_RATE_PER_SEC" (by decide : 0 < defaultRateRefill)).le
  have hc0 := int_pos env "UNITPM_IPC_RATE_BURST" (by decide : 0 < defaultRateCapacity)
  have hr0 := int_pos env "UNITPM_IPC_RATE_PER_SEC" (by decide : 0 < defaultRateRefill)
  have hnew : newRateLimiter env = withCapacityAndRefill c r := by
    rw [newRateLimiter, hc, hr]
    push_cast
    rfl
  have hf := follows_new (Nat.cast_nonneg (α := ℚ) c) (Nat.cast_nonneg (α := ℚ) r)
  rw [hc] at hc0 ⊢
  rw [hr] at hr0 ⊢
  rw [hnew]
  constructor
  · intro h
    cases earliest with
    | some m => exact absurd h (not_isolated_of_earliest hf rfl rfl rfl (by omega))
    | none =>
        refine ⟨?_, rfl⟩
        by_contra hlt
        exact not_isolated_of_lt hf rfl rfl rfl rfl (by omega) (by omega) h
  · rintro ⟨hle, rfl⟩
    have hle' : (c : ℚ) ≤ 300 * r := by exact_mod_cast hle
    exact isolated_of_le (Nat.cast_nonneg _) (Nat.cast_nonneg _)
      (by rw [show idleEvictionWindow = 300 by norm_num [idleEvictionWindow]]; exact hle')

/-- A burst of 301 calls, refilled at one call a second. -/
def slowRefillEnv : DaemonEnv where
  vars := [("UNITPM_IPC_RATE_BURST", "301"), ("UNITPM_IPC_RATE_PER_SEC", "1")]
  nodup := by decide
  names := by decide

/-- Half a second after the window the bucket holds 300.5 tokens, or 301 after a sweep. -/
theorem newRateLimiter_not_isolated : ¬ Isolated none (newRateLimiter slowRefillEnv) := by
  have h : newRateLimiter slowRefillEnv = withCapacityAndRefill (301 : ℕ) (1 : ℕ) := by
    rw [newRateLimiter,
      show int slowRefillEnv "UNITPM_IPC_RATE_BURST" defaultRateCapacity = 301 by decide +kernel,
      show int slowRefillEnv "UNITPM_IPC_RATE_PER_SEC" defaultRateRefill = 1 by decide +kernel]
    norm_num
  rw [h]
  exact not_isolated_of_lt (follows_new (Nat.cast_nonneg _) (Nat.cast_nonneg _)) rfl rfl rfl rfl
    (by decide) (by decide)

end Unitpm.RateLimit
