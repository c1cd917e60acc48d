import Mathlib.Algebra.Order.Ring.Int
import Mathlib.Data.Nat.Cast.Order.Ring
import Mathlib.Tactic.Ring
import Unitpm.Export
import Unitpm.Validate

/-! # The delay before a restart

`RestartPolicy::backoff_delay` of `daemon::manager::supervise`, on the policy that
`from_spec_or_default` makes of a spec.  `validate_spec` does not look at the restart section
(`validateSpec_restart`), so every `i32` and every backoff type may come here.

`backoffDelay_iff`: the delay is the documented one exactly for a `none` of zero milliseconds and
for a `linear` or `expo` that is not negative. -/

namespace Unitpm.Export

/-! ### Durations -/

/-- The longest `Duration`, in nanoseconds. -/
def maxDuration : ℕ := (2 ^ 64 - 1) * 10 ^ 9 + (10 ^ 9 - 1)

/-- `Duration::from_millis`, in nanoseconds. -/
def fromMillis (ms : ℕ) : ℕ := ms * 10 ^ 6

/-- `Duration::saturating_mul`. -/
def saturatingMul (d k : ℕ) : ℕ := min (d * k) maxDuration

/-- `as u64`. -/
def asU64 (n : ℤ) : ℕ := (n % 2 ^ 64).toNat

/-- `RestartPolicy::backoff_delay`, in nanoseconds. -/
def RestartPolicy.backoffDelay (p : RestartPolicy) (count : ℤ) : ℕ :=
  let base := fromMillis (asU64 p.backoffMs)
  if p.backoffType = "linear" then saturatingMul base (max count 1).toNat
  else
    let shift := (max 0 (min (count - 1) 30)).toNat
    min (saturatingMul base (2 ^ shift)) (5 * 60 * 10 ^ 9)

/-! ### The documented delay -/

/-- The delay of each documented backoff type, in milliseconds. -/
def documentedDelay (backoffType : String) (ms count : ℤ) : Option ℤ :=
  if backoffType = "none" then some 0
  else if backoffType = "linear" then some (ms * count)
  else if backoffType = "expo" then some (min (ms * 2 ^ (count - 1).toNat) (5 * 60 * 1000))
  else none

/-- Two years, in nanoseconds. -/
def twoYears : ℕ := 2 * 365 * 24 * 3600 * 10 ^ 9

/-- The delay is the documented one, and of a negative number of milliseconds it does not become
years. -/
def RestartPolicy.MeetsDocs (p : RestartPolicy) (count : ℤ) : Prop :=
  (∀ ms, documentedDelay p.backoffType p.backoffMs count = some ms →
    (p.backoffDelay count : ℤ) = ms * 10 ^ 6) ∧
    (p.backoffMs < 0 → p.backoffDelay count < twoYears)

/-- No milliseconds for `none`, and none that are negative for `linear` and `expo`. -/
def RestartPolicy.ProperDelay (p : RestartPolicy) : Prop :=
  (p.backoffType = "none" → p.backoffMs = 0) ∧
    (p.backoffType = "linear" ∨ p.backoffType = "expo" → 0 ≤ p.backoffMs)

/-- The values of an `i32`. -/
def IsI32 (n : ℤ) : Prop := -2 ^ 31 ≤ n ∧ n < 2 ^ 31

instance (n : ℤ) : Decidable (IsI32 n) := inferInstanceAs (Decidable (_ ∧ _))

section Delay

variable {p : RestartPolicy} {count : ℤ}

theorem asU64_of_nonneg {n : ℤ} (hn : IsI32 n) (h : 0 ≤ n) : asU64 n = n.toNat := by
  unfold asU64 IsI32 at *
  omega

theorem asU64_of_neg {n : ℤ} (hn : IsI32 n) (h : n < 0) : 2 ^ 64 - 2 ^ 31 ≤ asU64 n := by
  unfold asU64 IsI32 at *
  omega

theorem asU64_eq_zero_iff {n : ℤ} (hn : IsI32 n) : asU64 n = 0 ↔ n = 0 := by
  unfold asU64 IsI32 at *
  omega

/-- The linear delay of a number that is not negative; nothing saturates. -/
theorem backoffDelay_linear (ht : p.backoffType = "linear") (hp : IsI32 p.backoffMs)
    (h0 : 0 ≤ p.backoffMs) (hc : IsI32 count) (h1 : 1 ≤ count) :
    (p.backoffDelay count : ℤ) = p.backoffMs * count * 10 ^ 6 := by
  obtain ⟨ms, hms⟩ := Int.eq_ofNat_of_zero_le h0
  obtain ⟨c, rfl⟩ := Int.eq_ofNat_of_zero_le (show 0 ≤ count by omega)
  have hmul : ms * c ≤ 2 ^ 31 * 2 ^ 31 := by
    unfold IsI32 at hp hc
    exact Nat.mul_le_mul (by omega) (by omega)
  have hmax : (max (c : ℤ) 1).toNat = c := by omega
  have hle : ms * 10 ^ 6 * c ≤ maxDuration := by
    have hcomm : ms * 10 ^ 6 * c = ms * c * 10 ^ 6 := by ring
    unfold maxDuration
    omega
  rw [RestartPolicy.backoffDelay, if_pos ht, asU64_of_nonneg hp h0, hmax, fromMillis, saturatingMul,
    hms, Int.toNat_natCast, Nat.min_eq_left hle]
  push_cast
  ring

theorem twoYears_le_backoffDelay (ht : p.backoffType = "linear") (hp : IsI32 p.backoffMs)
    (h0 : p.backoffMs < 0) : twoYears ≤ p.backoffDelay count := by
  have hbase := asU64_of_neg hp h0
  have hcount : 1 ≤ (max count 1).toNat := by omega
  rw [RestartPolicy.backoffDelay, if_pos ht]
  generalize asU64 p.backoffMs = b at hbase ⊢
  generalize (max count 1).toNat = k at hcount ⊢
  have hmul : b * 10 ^ 6 ≤ b * 10 ^ 6 * k := Nat.le_mul_of_pos_right _ hcount
  have htwo : twoYears ≤ b * 10 ^ 6 :=
    (by decide : twoYears ≤ (2 ^ 64 - 2 ^ 31) * 10 ^ 6).trans (Nat.mul_le_mul_right _ hbase)
  exact Nat.le_min.2 ⟨htwo.trans hmul, by decide⟩

theorem min_millis (x : ℕ) : min (x * 10 ^ 6) (5 * 60 * 10 ^ 9) = min x 300000 * 10 ^ 6 := by
  omega

theorem min_shift (ms n : ℕ) :
    min (ms * 2 ^ min n 30) 300000 = min (ms * 2 ^ n) 300000 := by
  rcases Nat.le_total n 30 with hn | hn
  · rw [Nat.min_eq_left hn]
  · rw [Nat.min_eq_right hn]
    rcases Nat.eq_zero_or_pos ms with rfl | hms
    · rw [Nat.zero_mul, Nat.zero_mul]
    · have hpow : 2 ^ 30 ≤ 2 ^ n := Nat.pow_le_pow_right (by omega) hn
      have h1 : 2 ^ 30 ≤ ms * 2 ^ 30 := Nat.le_mul_of_pos_left _ hms
      have h2 : 2 ^ n ≤ ms * 2 ^ n := Nat.le_mul_of_pos_left _ hms
      omega

/-- The exponential delay of a number that is not negative. -/
theorem backoffDelay_expo (ht : p.backoffType ≠ "linear") (hp : IsI32 p.backoffMs)
    (h0 : 0 ≤ p.backoffMs) (h1 : 1 ≤ count) :
    (p.backoffDelay count : ℤ) =
      min (p.backoffMs * 2 ^ (count - 1).toNat) (5 * 60 * 1000) * 10 ^ 6 := by
  obtain ⟨ms, hms⟩ := Int.eq_ofNat_of_zero_le h0
  have hshift : (max 0 (min (count - 1) 30)).toNat = min (count - 1).toNat 30 := by omega
  generalize (count - 1).toNat = n at hshift ⊢
  have hcap := min_shift ms n
  have hpow : 2 ^ min n 30 ≤ 2 ^ 30 := Nat.pow_le_pow_right (by omega) (Nat.min_le_right n 30)
  have hmul : ms * 2 ^ min n 30 ≤ 2 ^ 31 * 2 ^ 30 := by
    unfold IsI32 at hp
    exact Nat.mul_le_mul (by omega) hpow
  have hcomm : ms * 10 ^ 6 * 2 ^ min n 30 = ms * 2 ^ min n 30 * 10 ^ 6 := by ring
  have hle : ms * 10 ^ 6 * 2 ^ min n 30 ≤ maxDuration := by
    unfold maxDuration
    omega
  have hnat : p.backoffDelay count = min (ms * 2 ^ n) 300000 * 10 ^ 6 := by
    rw [RestartPolicy.backoffDelay, if_neg ht]
    dsimp only [fromMillis, saturatingMul]
    rw [asU64_of_nonneg hp h0, hshift, hms, Int.toNat_natCast, Nat.min_eq_left hle, hcomm,
      min_millis, hcap]
  rw [hnat, hms]
  push_cast
  omega

theorem backoffDelay_le (ht : p.backoffType ≠ "linear") (count : ℤ) :
    p.backoffDelay count ≤ 5 * 60 * 10 ^ 9 := by
  rw [RestartPolicy.backoffDelay, if_neg ht]
  exact Nat.min_le_right _ _

/-- A delay that is not linear is none exactly for zero milliseconds. -/
theorem backoffDelay_eq_zero_iff (ht : p.backoffType ≠ "linear") (hp : IsI32 p.backoffMs)
    (count : ℤ) : p.backoffDelay count = 0 ↔ p.backoffMs = 0 := by
  rw [RestartPolicy.backoffDelay, if_neg ht, ← asU64_eq_zero_iff hp]
  dsimp only [fromMillis, saturatingMul]
  generalize (max 0 (min (count - 1) 30)).toNat = n
  have hpow : 0 < 2 ^ n := Nat.two_pow_pos n
  constructor
  · intro h
    by_contra hne
    have hpos : 0 < asU64 p.backoffMs * 10 ^ 6 * 2 ^ n :=
      Nat.mul_pos (Nat.mul_pos (Nat.pos_of_ne_zero hne) (by omega)) hpow
    unfold maxDuration at h
    omega
  · intro h
    rw [h, Nat.zero_mul, Nat.zero_mul, Nat.zero_min, Nat.zero_min]

theorem meetsDocs_linear (ht : p.backoffType = "linear") (hp : IsI32 p.backoffMs)
    (hc : IsI32 count) (h1 : 1 ≤ count) : p.MeetsDocs count ↔ 0 ≤ p.backoffMs := by
  have hdoc : documentedDelay p.backoffType p.backoffMs count = some (p.backoffMs * count) := by
    rw [documentedDelay, if_neg (by simp [ht]), if_pos ht]
  constructor
  · rintro ⟨-, hyears⟩
    by_contra hneg
    exact Nat.not_lt.2 (twoYears_le_backoffDelay ht hp (by omega)) (hyears (by omega))
  · intro h0
    refine ⟨fun ms hms => ?_, fun hneg => absurd h0 (by omega)⟩
    rw [backoffDelay_linear ht hp h0 hc h1, Option.some.inj (hms.symm.trans hdoc)]

/-- `none` means no delay only for zero milliseconds. -/
theorem meetsDocs_none (ht : p.backoffType = "none") (hp : IsI32 p.backoffMs) :
    p.MeetsDocs count ↔ p.backoffMs = 0 := by
  have hlin : p.backoffType ≠ "linear" := by simp [ht]
  have hdoc : documentedDelay p.backoffType p.backoffMs count = some 0 := by
    rw [documentedDelay, if_pos ht]
  have hzero := backoffDelay_eq_zero_iff hlin hp count
  constructor
  · rintro ⟨hdelay, -⟩
    have h0 := hdelay 0 hdoc
    exact hzero.1 (by omega)
  · intro hms
    refine ⟨fun ms hd => ?_, fun hneg => by omega⟩
    obtain rfl := Option.some.inj (hdoc.symm.trans hd)
    rw [hzero.2 hms]
    rfl

/-- An exponential delay is the documented one exactly when it is not negative. -/
theorem meetsDocs_expo (ht : p.backoffType = "expo") (hp : IsI32 p.backoffMs) (h1 : 1 ≤ count) :
    p.MeetsDocs count ↔ 0 ≤ p.backoffMs := by
  have hlin : p.backoffType ≠ "linear" := by simp [ht]
  have hdoc : documentedDelay p.backoffType p.backoffMs count =
      some (min (p.backoffMs * 2 ^ (count - 1).toNat) (5 * 60 * 1000)) := by
    rw [documentedDelay, if_neg (by simp [ht]), if_neg hlin, if_pos ht]
  constructor
  · rintro ⟨hdelay, -⟩
    by_contra hneg
    have hscaled : p.backoffMs * 2 ^ (count - 1).toNat < 0 :=
      Int.mul_neg_of_neg_of_pos (by omega) (Int.pow_pos (by omega))
    have hms := hdelay _ hdoc
    omega
  · intro h0
    refine ⟨fun ms hms => ?_, fun hneg => absurd h0 (by omega)⟩
    rw [backoffDelay_expo hlin hp h0 h1, Option.some.inj (hms.symm.trans hdoc)]

theorem meetsDocs_unknown (hnone : p.backoffType ≠ "none") (hlin : p.backoffType ≠ "linear")
    (hexpo : p.backoffType ≠ "expo") : p.MeetsDocs count := by
  refine ⟨fun ms hms => ?_, fun _ => (backoffDelay_le hlin count).trans_lt (by decide)⟩
  rw [documentedDelay, if_neg hnone, if_neg hlin, if_neg hexpo] at hms
  simp at hms

end Delay

theorem validateSpec_restart (s : AppSpec) (r : Option AppRestart) :
    validateSpec { s with restart := r } = validateSpec s :=
  rfl

/-- The delay that a restart section leads to is the documented one exactly when the section asks
for a proper one. -/
theorem backoffDelay_iff {r : AppRestart} {count : ℤ}
    (hms : ∀ ms, r.backoffMs = some ms → IsI32 ms) (hc : IsI32 count) (h1 : 1 ≤ count) :
    (RestartPolicy.fromSpecOrDefault (some r)).MeetsDocs count ↔
      (RestartPolicy.fromSpecOrDefault (some r)).ProperDelay := by
  have hp : IsI32 (RestartPolicy.fromSpecOrDefault (some r)).backoffMs := by
    cases hr : r.backoffMs with
    | none => simp [RestartPolicy.fromSpecOrDefault, hr, IsI32]
    | some ms => simpa [RestartPolicy.fromSpecOrDefault, hr] using hms ms hr
  generalize RestartPolicy.fromSpecOrDefault (some r) = p at hp ⊢
  unfold RestartPolicy.ProperDelay
  by_cases hlin : p.backoffType = "linear"
  · simp [meetsDocs_linear hlin hp hc h1, hlin]
  by_cases hnone : p.backoffType = "none"
  · simp [meetsDocs_none hnone hp, hnone]
  by_cases hexpo : p.backoffType = "expo"
  · simp [meetsDocs_expo hexpo hp h1, hexpo]
  · simp [meetsDocs_unknown hnone hlin hexpo, hnone, hlin, hexpo]

/-- Always restarted, after `ms` and a backoff of `backoffType`. -/
def alwaysRestart (ms : Option ℤ) (backoffType : String) : AppRestart where
  policy := "always"
  backoffMs := ms
  backoffType := some backoffType

/-- Half a second, and one and a half for the third attempt. -/
theorem backoffDelay_third :
    let r := alwaysRestart (some 500) "linear"
    (∀ ms, r.backoffMs = some ms → IsI32 ms) ∧ IsI32 3 ∧ (1 : ℤ) ≤ 3 ∧
      (RestartPolicy.fromSpecOrDefault (some r)).backoffDelay 3 = 1500 * 10 ^ 6 ∧
      ((RestartPolicy.fromSpecOrDefault (some r)).MeetsDocs 3 ↔
        (RestartPolicy.fromSpecOrDefault (some r)).ProperDelay) := by
  have hms : ∀ ms, (alwaysRestart (some 500) "linear").backoffMs = some ms → IsI32 ms :=
    fun ms h => Option.some.inj h ▸ by decide
  have hc : IsI32 3 := by decide
  have h1 : (1 : ℤ) ≤ 3 := by decide
  exact ⟨hms, hc, h1, by decide, backoffDelay_iff hms hc h1⟩

/-- `sleep 1`, restarted with `r`. -/
def restartedSpec (r : AppRestart) : AppSpec where
  id := ""
  name := "job"
  exec := { kind := "command", command := some "sleep", args := some ["1"] }
  restart := some r

/-- Two specs that pass: with `none` the first restart waits two seconds, and a linear backoff of
minus one millisecond waits for centuries. -/
theorem undocumented_delays :
    (validateSpec (restartedSpec (alwaysRestart none "none")) = .ok () ∧
      ¬ (RestartPolicy.fromSpecOrDefault (some (alwaysRestart none "none"))).MeetsDocs 1) ∧
    (validateSpec (restartedSpec (alwaysRestart (some (-1)) "linear")) = .ok () ∧
      ¬ (RestartPolicy.fromSpecOrDefault (some (alwaysRestart (some (-1)) "linear"))).MeetsDocs
        1) := by
  refine ⟨⟨by decide +kernel, fun h => ?_⟩, by decide +kernel, fun h => ?_⟩
  · exact absurd (h.1 0 rfl) (by decide)
  · exact absurd (h.2 (by decide)) (by decide)

end Unitpm.Export
