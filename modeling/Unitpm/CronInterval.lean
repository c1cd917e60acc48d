import Unitpm.Process

/-! # Written durations

What `parse_simple_duration` of `daemon::manager::helpers` makes of a number and a unit, and which
schedules `Process::new` lets through on the word of it.  The product is taken in `u64` and wraps in
a release build.

`parseSimpleDuration_iff`: the duration is the written one, and every schedule that is let through
is due between five seconds and a day, exactly when the written seconds fit an `u64`. -/

namespace Unitpm

open Rust.Str

/-- The seconds of a unit. -/
def unitSeconds : Char → Option ℕ
  | 's' => some 1
  | 'm' => some 60
  | 'h' => some 3600
  | 'd' => some 86400
  | _ => none

/-- `s` is a decimal number `n` and a unit of `k` seconds, with white space around. -/
def WritesDuration (s : String) (n k : ℕ) : Prop :=
  ∃ ds u, trim s.toList = ds ++ [u] ∧ ds ≠ [] ∧ (∀ c ∈ ds, c.isDigit = true) ∧
    digitsVal ds = n ∧ unitSeconds u = some k

/-- Whatever `parse_simple_duration` returns is the written duration, and a process whose schedule
is `@every s` is accepted only for five seconds to a day. -/
def DurationExact (s : String) : Prop :=
  (∀ d, parseSimpleDuration s = .ok d → ∃ n k, WritesDuration s n k ∧ d = n * k) ∧
    ∀ (h : Host) (a : AppSpec) (p : Process), a.cron = some ("@every " ++ s) →
      Process.new h a = .ok p → ∃ n k, WritesDuration s n k ∧ 5 ≤ n * k ∧ n * k ≤ 24 * 3600

/-- A written number that is an `u64` is one in seconds too. -/
def SecondsFit (s : String) : Prop :=
  ∀ n k, WritesDuration s n k → n < 2 ^ 64 → n * k < 2 ^ 64

section Duration

variable {s : String} {n k d : ℕ}

theorem unitSeconds_isDigit {u : Char} (h : unitSeconds u = some k) : u.isDigit = false := by
  unfold unitSeconds at h
  split at h <;> first | rfl | cases h

theorem WritesDuration.unique {n' k' : ℕ} (h : WritesDuration s n k)
    (h' : WritesDuration s n' k') : n = n' ∧ k = k' := by
  obtain ⟨ds, u, hs, -, -, hn, hk⟩ := h
  obtain ⟨ds', u', hs', -, -, hn', hk'⟩ := h'
  obtain ⟨rfl, hu⟩ := List.append_inj' (hs.symm.trans hs') rfl
  obtain rfl := List.singleton_inj.1 hu
  exact ⟨hn.symm.trans hn', Option.some.inj (hk.symm.trans hk')⟩

theorem writesDuration_trim :
    WritesDuration (String.ofList (trim s.toList)) n k ↔ WritesDuration s n k := by
  unfold WritesDuration
  rw [String.toList_ofList, trim_eq_self (trimmed_trim _)]

theorem takeWhile_isDigit {ds : List Char} {u : Char} (hd : ∀ c ∈ ds, c.isDigit = true)
    (hu : u.isDigit = false) : (ds ++ [u]).takeWhile Char.isDigit = ds := by
  rw [List.takeWhile_append_of_pos hd, List.takeWhile_cons_of_neg (by simp [hu]), List.append_nil]

theorem dropWhile_isDigit {ds : List Char} {u : Char} (hd : ∀ c ∈ ds, c.isDigit = true)
    (hu : u.isDigit = false) : (ds ++ [u]).dropWhile Char.isDigit = [u] := by
  rw [List.dropWhile_append_of_pos hd, List.dropWhile_cons_of_neg (by simp [hu])]

theorem parseSimpleDuration_unit {ds : List Char} {u : Char} (hs : trim s.toList = ds ++ [u])
    (hne : ds ≠ []) (hd : ∀ c ∈ ds, c.isDigit = true) (hn : digitsVal ds < 2 ^ 64)
    (hk : unitSeconds u = some k) :
    parseSimpleDuration s = .ok (digitsVal ds * k % 2 ^ 64) := by
  have hu := unitSeconds_isDigit hk
  have hnum : parseUnsigned (2 ^ 64 - 1) ds = some (digitsVal ds) :=
    parseUnsigned_eq_some_iff.2 ⟨⟨ds, .inl rfl, hne, hd, rfl⟩, by omega⟩
  simp only [parseSimpleDuration, hs, takeWhile_isDigit hd hu, dropWhile_isDigit hd hu,
    List.append_eq_nil_iff, List.cons_ne_nil, and_false, if_false, hne, hnum]
  unfold unitSeconds at hk
  split at hk <;> first | (obtain rfl := Option.some.inj hk; rfl) | cases hk

/-- What is accepted: an `u64` and a unit, and the product wraps. -/
theorem parseSimpleDuration_ok_iff : parseSimpleDuration s = .ok d ↔
    ∃ n k, WritesDuration s n k ∧ n < 2 ^ 64 ∧ d = n * k % 2 ^ 64 := by
  constructor
  · intro h
    unfold parseSimpleDuration at h
    dsimp only at h
    split at h
    · cases h
    split at h
    · cases h
    split at h
    · cases h
    split at h
    · cases h
    rename_i n hn
    obtain ⟨⟨ds, hds, hne, hd, rfl⟩, hmax⟩ := parseUnsigned_eq_some_iff.1 hn
    have hdigits : ∀ c ∈ (trim s.toList).takeWhile Char.isDigit, c.isDigit = true :=
      fun c hc => List.mem_takeWhile_imp hc
    have hnum : (trim s.toList).takeWhile Char.isDigit = ds :=
      hds.resolve_right fun e => head?_ne_of_isDigit (e ▸ hdigits) (by decide) rfl
    obtain ⟨u, k, hunit, hk, hd'⟩ : ∃ u k, (trim s.toList).dropWhile Char.isDigit = [u] ∧
        unitSeconds u = some k ∧ d = digitsVal ds * k % 2 ^ 64 := by
      split_ifs at h with hs hm hh hday <;> obtain rfl := Except.ok.inj h
      · exact ⟨'s', 1, hs, rfl, rfl⟩
      · exact ⟨'m', 60, hm, rfl, rfl⟩
      · exact ⟨'h', 3600, hh, rfl, rfl⟩
      · exact ⟨'d', 86400, hday, rfl, rfl⟩
    have hsplit : trim s.toList = ds ++ [u] := by
      rw [← hnum, ← hunit, List.takeWhile_append_dropWhile]
    exact ⟨_, k, ⟨ds, u, hsplit, hne, hd, rfl, hk⟩, by omega, hd'⟩
  · rintro ⟨n, k, ⟨ds, u, hs, hne, hd, rfl, hk⟩, hn, rfl⟩
    exact parseSimpleDuration_unit hs hne hd hn hk

theorem cronCheck_every {t : String} (hc : cronCheck (some ("@every " ++ t)) = .ok ()) :
    ∃ d, parseSimpleDuration (String.ofList (trim t.toList)) = .ok d ∧ 5 ≤ d ∧ d ≤ 24 * 3600 := by
  have hstrip : stripPrefix? "@every " ("@every " ++ t) = some t := by
    simp [stripPrefix?, startsWith]
  rw [cronCheck, Option.bind_some, hstrip] at hc
  dsimp only at hc
  split at hc
  · cases hc
  · rename_i d hd
    split_ifs at hc with hlow hhigh
    exact ⟨d, hd, by omega, by omega⟩

end Duration

/-- Exactly for the durations whose seconds fit is the duration the written one and every schedule
that is let through due between five seconds and a day. -/
theorem parseSimpleDuration_iff (s : String) : DurationExact s ↔ SecondsFit s := by
  constructor
  · rintro ⟨hexact, -⟩ n k hw hn
    obtain ⟨n', k', hw', hd⟩ := hexact _ (parseSimpleDuration_ok_iff.2 ⟨n, k, hw, hn, rfl⟩)
    obtain ⟨rfl, rfl⟩ := hw.unique hw'
    rw [← hd]
    exact Nat.mod_lt _ (by decide)
  · intro hfit
    refine ⟨fun d hd => ?_, fun h a p ha hp => ?_⟩
    · obtain ⟨n, k, hw, hn, rfl⟩ := parseSimpleDuration_ok_iff.1 hd
      exact ⟨n, k, hw, Nat.mod_eq_of_lt (hfit n k hw hn)⟩
    · obtain ⟨d, hd, hlow, hhigh⟩ := cronCheck_every (ha ▸ (Process.new_ok hp).2.2.2.2.2.2)
      obtain ⟨n, k, hw, hn, rfl⟩ := parseSimpleDuration_ok_iff.1 hd
      have hw' := writesDuration_trim.1 hw
      rw [Nat.mod_eq_of_lt (hfit n k hw' hn)] at hlow hhigh
      exact ⟨n, k, hw', hlow, hhigh⟩

/-- Half a trillion years, in days, pass for seventeen hours. -/
theorem wrapped_interval : cronCheck (some "@every 213503982334602d") = .ok () ∧
    WritesDuration "213503982334602d" 213503982334602 86400 ∧
    parseSimpleDuration "213503982334602d" = .ok 61184 ∧ ¬ DurationExact "213503982334602d" := by
  have hw : WritesDuration "213503982334602d" 213503982334602 86400 :=
    ⟨"213503982334602".toList, 'd', by decide +kernel, by decide +kernel,
      List.all_eq_true.1 (by decide +kernel), by decide +kernel, rfl⟩
  have hp : parseSimpleDuration "213503982334602d" = .ok 61184 := by decide +kernel
  refine ⟨by decide +kernel, hw, hp, fun h => ?_⟩
  obtain ⟨n, k, hw', hd⟩ := h.1 _ hp
  obtain ⟨rfl, rfl⟩ := hw.unique hw'
  exact absurd hd (by decide)

end Unitpm
