import Mathlib.Algebra.Order.Field.Basic
import Mathlib.Data.Rat.Cast.Order
import Mathlib.Tactic.Linarith
import Mathlib.Tactic.Ring
import Mathlib.Tactic.Positivity
import Unitpm.Lib.Run

/-! # Token buckets

A bucket holds at most `capacity` tokens, gains `rate` of them per unit of time and gives one to
every request it grants; gaps of at most `grain` are not refilled.  Tokens and times are in an
arbitrary ordered field.

`grants_le` is the rate bound: whatever window of time is looked at, the requests granted in it
are at most `capacity + rate * (length + grain)`.  The argument is a potential: the tokens in the
bucket and those it can still gain before the end of the window pay for every grant
(`potential_refill`, `grants_le_potential`).

`serve_of_full` is what makes it safe to forget a bucket: one that has been left alone long enough
to be full again answers as a new one does. -/

namespace TokenBucket

/-- How a bucket fills. -/
structure Rule (K : Type*) [Zero K] [LE K] where
  capacity : K
  rate : K
  grain : K
  capacity_nonneg : 0 ≤ capacity
  rate_nonneg : 0 ≤ rate
  grain_nonneg : 0 ≤ grain

/-- The tokens left, and when the bucket was last filled. -/
structure Bucket (K : Type*) where
  tokens : K
  lastFill : K
deriving DecidableEq

variable {K : Type*} [Field K] [LinearOrder K]

/-- The time since the last fill; `0` for a clock that went back. -/
def Bucket.elapsed (b : Bucket K) (now : K) : K := max 0 (now - b.lastFill)

/-- Add the tokens of the time since the last fill. -/
def refill (p : Rule K) (now : K) (b : Bucket K) : Bucket K :=
  if p.grain < b.elapsed now then ⟨min p.capacity (b.tokens + b.elapsed now * p.rate), now⟩ else b

/-- Take one token, if there is one. -/
def take (b : Bucket K) : Bucket K × Bool :=
  if b.tokens < 1 then (b, false) else ({ b with tokens := b.tokens - 1 }, true)

/-- One request; the first one finds the bucket full. -/
def serve (p : Rule K) (o : Option (Bucket K)) (now : K) : Option (Bucket K) × Bool :=
  let r := take (refill p now (o.getD ⟨p.capacity, now⟩))
  (some r.1, r.2)

/-- The answers to requests at the given times, from a bucket that nothing else touches. -/
def alone (p : Rule K) (o : Option (Bucket K)) (ts : List K) : List Bool :=
  Run.outputs (serve p) o ts

/-- A request with its answer: granted, and made in the window from `a` to `e`. -/
def grantedIn (a e : K) (c : K × Bool) : Bool := decide (a ≤ c.1 ∧ c.1 ≤ e) && c.2

/-- The number of the requests at the times `ts` that are granted in the window. -/
def grants (p : Rule K) (a e : K) (o : Option (Bucket K)) (ts : List K) : ℕ :=
  (ts.zip (alone p o ts)).countP (grantedIn a e)

/-- What the bucket can still give until time `e`. -/
def Bucket.potential (p : Rule K) (e : K) (b : Bucket K) : K :=
  b.tokens + p.rate * (e - b.lastFill)

/-- What a bucket in use satisfies at time `now`. -/
structure Bucket.Inv (p : Rule K) (now : K) (b : Bucket K) : Prop where
  nonneg : 0 ≤ b.tokens
  le_capacity : b.tokens ≤ p.capacity
  past : b.lastFill ≤ now

/-! ### One request -/

variable {p : Rule K} {b : Bucket K} {o : Option (Bucket K)} {now t a e : K} {ts : List K}

@[simp] theorem lastFill_take (b : Bucket K) : (take b).1.lastFill = b.lastFill := by
  unfold take
  split <;> rfl

theorem tokens_take (b : Bucket K) :
    (take b).1.tokens = b.tokens - if (take b).2 = true then 1 else 0 := by
  unfold take
  split <;> simp

theorem potential_take (b : Bucket K) :
    (take b).1.potential p e + (if (take b).2 = true then 1 else 0) = b.potential p e := by
  rw [Bucket.potential, Bucket.potential, tokens_take, lastFill_take]
  ring

@[simp] theorem refill_self (p : Rule K) (x now : K) : refill p now ⟨x, now⟩ = ⟨x, now⟩ := by
  simp [refill, Bucket.elapsed, not_lt.mpr p.grain_nonneg]

theorem Bucket.Inv.mono (h : b.Inv p now) (ht : now ≤ t) : b.Inv p t :=
  ⟨h.nonneg, h.le_capacity, h.past.trans ht⟩

theorem inv_full (p : Rule K) (now : K) : Bucket.Inv p now ⟨p.capacity, now⟩ :=
  ⟨p.capacity_nonneg, le_refl _, le_refl _⟩

theorem inv_getD (h : ∀ b ∈ o, b.Inv p now) : (o.getD ⟨p.capacity, now⟩).Inv p now := by
  cases o with
  | none => exact inv_full p now
  | some b => exact h b rfl

theorem grants_cons (p : Rule K) (a e : K) (o : Option (Bucket K)) (t : K) (ts : List K) :
    grants p a e o (t :: ts) =
      grants p a e (serve p o t).1 ts + if grantedIn a e (t, (serve p o t).2) then 1 else 0 := by
  rw [grants, alone, Run.outputs, List.zip_cons_cons, List.countP_cons]
  rfl

theorem grants_eq_zero (hts : (t :: ts).Pairwise (· ≤ ·)) (h : e < t) :
    grants p a e o (t :: ts) = 0 := by
  rw [grants, List.countP_eq_zero]
  rintro ⟨x, r⟩ hx
  have hle : t ≤ x := by
    rcases List.mem_cons.mp (List.of_mem_zip hx).1 with rfl | hm
    · exact le_refl x
    · exact (List.pairwise_cons.mp hts).1 x hm
  simp [grantedIn, not_le.mpr (h.trans_le hle)]

variable [IsStrictOrderedRing K]

theorem Bucket.elapsed_of_le (h : b.lastFill ≤ now) : b.elapsed now = now - b.lastFill :=
  max_eq_right (sub_nonneg.mpr h)

theorem sub_grain_le_lastFill_refill (p : Rule K) (now : K) (b : Bucket K) :
    now - p.grain ≤ (refill p now b).lastFill := by
  unfold refill
  split
  · exact sub_le_self now p.grain_nonneg
  · rename_i h
    have : now - b.lastFill ≤ p.grain := (le_max_right _ _).trans (not_lt.mp h)
    linarith

theorem Bucket.Inv.refill (h : b.Inv p now) : (refill p now b).Inv p now := by
  unfold TokenBucket.refill
  split
  · have he : 0 ≤ b.elapsed now := le_max_left _ _
    have hs := add_nonneg h.nonneg (mul_nonneg he p.rate_nonneg)
    exact ⟨le_min p.capacity_nonneg hs, min_le_left _ _, le_refl _⟩
  · exact h

theorem Bucket.Inv.take (h : b.Inv p now) : (take b).1.Inv p now := by
  unfold TokenBucket.take
  split
  · exact h
  · rename_i h1
    exact ⟨sub_nonneg.mpr (not_lt.mp h1), (sub_le_self _ zero_le_one).trans h.le_capacity, h.past⟩

theorem inv_serve (h : ∀ b ∈ o, b.Inv p now) : ∀ b ∈ (serve p o now).1, b.Inv p now := by
  rintro b ⟨⟩
  exact (inv_getD h).refill.take

/-! ### The rate bound -/

theorem potential_refill (h : b.lastFill ≤ now) :
    (refill p now b).potential p e ≤ b.potential p e := by
  unfold refill
  split
  · have hm := min_le_right p.capacity (b.tokens + b.elapsed now * p.rate)
    rw [Bucket.elapsed_of_le h] at hm ⊢
    simp only [Bucket.potential]
    linarith
  · exact le_refl _

theorem grantedIn_le (a e : K) (c : K × Bool) :
    ((if grantedIn a e c then 1 else 0 : ℕ) : K) ≤ if c.2 = true then 1 else 0 := by
  obtain ⟨t, r⟩ := c
  cases r <;> simp [grantedIn]
  split <;> simp

theorem grants_cons_le (h : (grants p a e (serve p o t).1 ts : K) ≤
      (take (refill p t (o.getD ⟨p.capacity, t⟩))).1.potential p e) :
    (grants p a e o (t :: ts) : K) ≤ (refill p t (o.getD ⟨p.capacity, t⟩)).potential p e := by
  rw [grants_cons, Nat.cast_add, ← potential_take]
  exact add_le_add h (grantedIn_le a e (t, (serve p o t).2))

theorem potential_nonneg (hb : 0 ≤ b.tokens) (he : b.lastFill ≤ e) : 0 ≤ b.potential p e :=
  add_nonneg hb (mul_nonneg p.rate_nonneg (sub_nonneg.mpr he))

/-- The grants of a window are paid for by what the bucket can give until its end. -/
theorem grants_le_potential (hts : ts.Pairwise (· ≤ ·)) (hb : 0 ≤ b.tokens) (he : b.lastFill ≤ e)
    (hp : ∀ t ∈ ts, b.Inv p t) : (grants p a e (some b) ts : K) ≤ b.potential p e := by
  induction ts generalizing b with
  | nil => simpa [grants] using potential_nonneg hb he
  | cons t ts ih =>
      obtain ⟨hle, hts'⟩ := List.pairwise_cons.mp hts
      have hi : b.Inv p t := hp t (by simp)
      by_cases hte : t ≤ e
      · have hi' := hi.refill.take
        have h1 := ih hts' hi'.nonneg (hi'.past.trans hte) fun x hx => hi'.mono (hle x hx)
        exact (grants_cons_le (o := some b) h1).trans (potential_refill hi.past)
      · rw [grants_eq_zero hts (not_le.mp hte), Nat.cast_zero]
        exact potential_nonneg hb he

/-- **The rate bound.**  No window sees more grants than a full bucket, what the window refills,
and the refill that a skipped gap before it still owes. -/
theorem grants_le (hae : a ≤ e) (hts : ts.Pairwise (· ≤ ·))
    (ho : ∀ b ∈ o, ∀ t ∈ ts, b.Inv p t) :
    (grants p a e o ts : K) ≤ p.capacity + p.rate * (e - a + p.grain) := by
  have hbound : 0 ≤ p.capacity + p.rate * (e - a + p.grain) := add_nonneg p.capacity_nonneg
    (mul_nonneg p.rate_nonneg (add_nonneg (sub_nonneg.mpr hae) p.grain_nonneg))
  induction ts generalizing o with
  | nil => simpa [grants] using hbound
  | cons t ts ih =>
      obtain ⟨hle, hts'⟩ := List.pairwise_cons.mp hts
      have hi := inv_getD (o := o) fun b hb => ho b hb t (by simp)
      have hi' : ∀ x ∈ ts, (take (refill p t (o.getD ⟨p.capacity, t⟩))).1.Inv p x :=
        fun x hx => hi.refill.take.mono (hle x hx)
      by_cases hat : a ≤ t
      · by_cases hte : t ≤ e
        · -- the first request of the window: from here on the potential pays
          have h1 := grants_le_potential (a := a) (e := e) hts' hi.refill.take.nonneg
            (hi.refill.take.past.trans hte) hi'
          have h2 := grants_cons_le (o := o) h1
          have h3 := hi.refill.le_capacity
          have h4 := sub_grain_le_lastFill_refill p t (o.getD ⟨p.capacity, t⟩)
          have h5 : p.rate * (e - (refill p t (o.getD ⟨p.capacity, t⟩)).lastFill) ≤
              p.rate * (e - a + p.grain) :=
            mul_le_mul_of_nonneg_left (by linarith) p.rate_nonneg
          exact h2.trans (add_le_add h3 h5)
        · rw [grants_eq_zero hts (not_le.mp hte), Nat.cast_zero]
          exact hbound
      · have h0 : grantedIn a e (t, (serve p o t).2) = false := by simp [grantedIn, hat]
        rw [grants_cons, h0, if_neg Bool.false_ne_true, add_zero]
        apply ih hts'
        rintro b ⟨⟩ x hx
        exact hi' x hx

/-! ### Forgetting a bucket -/

theorem serve_of_full (hb : 0 ≤ b.tokens) (hg : p.grain < now - b.lastFill)
    (hf : p.capacity ≤ (now - b.lastFill) * p.rate) : serve p (some b) now = serve p none now := by
  have he : b.elapsed now = now - b.lastFill := max_eq_right (p.grain_nonneg.trans hg.le)
  have h1 : refill p now b = ⟨p.capacity, now⟩ := by
    rw [refill, he, if_pos hg, min_eq_left (by linarith)]
  simp only [serve, Option.getD_some, Option.getD_none, h1, refill_self]

end TokenBucket
