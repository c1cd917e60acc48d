import Unitpm.Protocol
import Unitpm.StartArgs

/-! # Written memory sizes

`parse_memory_size` of `cli::commands::start::memory` and the resource section that `finalize` makes
of it.  Only the number before the suffix is checked; the product is taken in `i64` and wraps in a
release build.

`parseMemorySize_iff`: the size and the limit in the spec are the written ones exactly when the
written bytes fit an `i64`. -/

namespace Unitpm.Start

open Rust.Str

/-! ### The parser -/

/-- The multiplier that the last character stands for, and the text before it. -/
def splitSuffix (trimmed : List Char) : ℤ × List Char :=
  match trimmed.getLast? with
  | some 'k' | some 'K' => (1024, trimmed.dropLast)
  | some 'm' | some 'M' => (1024 * 1024, trimmed.dropLast)
  | some 'g' | some 'G' => (1024 * 1024 * 1024, trimmed.dropLast)
  | _ => (1, trimmed)

def invalidSize (valueStr : List Char) : String :=
  "invalid memory size " ++ debug (String.ofList valueStr) ++ " (expected e.g. 512M or 2G)"

/-- `parse_memory_size`; the product is taken in `i64`. -/
def parseMemorySize (s : String) : Except String ℤ :=
  let trimmed := trim s.toList
  if trimmed = [] then .ok 0
  else
    let mult := (splitSuffix trimmed).1
    let valueStr := trim (splitSuffix trimmed).2
    match parseSigned (2 ^ 63) (2 ^ 63 - 1) valueStr with
    | none => .error (invalidSize valueStr)
    | some n => if n ≤ 0 then .error (invalidSize valueStr) else .ok ((n * mult).bmod (2 ^ 64))

/-- A value that is set when it is not zero. -/
def nonZero (n : ℤ) : Option ℤ := if n = 0 then none else some n

/-- The resource section of `finalize`. -/
def finalizeResources (o : Options) : Except String (Option AppResources) :=
  if o.memoryMax ≠ "" ∨ o.cpuMaxPct ≠ 0 ∨ o.tasksMax ≠ 0 then
    match parseMemorySize o.memoryMax with
    | .error e => .error e
    | .ok memBytes =>
        .ok (some
          { memoryMaxBytes := nonZero memBytes
            cpuMaxPercent := nonZero o.cpuMaxPct
            tasksMax := nonZero o.tasksMax })
  else .ok none

/-! ### What is written -/

/-- The bytes of a suffix. -/
def sizeUnit : Char → Option ℕ
  | 'k' | 'K' => some 1024
  | 'm' | 'M' => some (1024 ^ 2)
  | 'g' | 'G' => some (1024 ^ 3)
  | _ => none

/-- `s` is the number `n` and a suffix of `k` bytes or none, with white space around both. -/
def WritesSize (s : String) (n k : ℕ) : Prop :=
  (k = 1 ∧ IsNumeral (trim s.toList) n) ∨
    ∃ v u, trim s.toList = v ++ [u] ∧ sizeUnit u = some k ∧ IsNumeral (trim v) n

/-- `--memory-max s` gives an error, or no limit where nothing is written, or the written limit. -/
def SizeExact (s : String) : Prop :=
  (∀ r, parseMemorySize s = .ok r →
    (trim s.toList = [] ∧ r = 0) ∨ ∃ n k, WritesSize s n k ∧ 0 < n ∧ r = n * k) ∧
  ∀ o r, o.memoryMax = s → finalizeResources o = .ok r →
    (trim s.toList = [] ∧ r.bind AppResources.memoryMaxBytes = none) ∨
      ∃ n k, WritesSize s n k ∧ 0 < n ∧
        r.bind AppResources.memoryMaxBytes = some ((n * k : ℕ) : ℤ)

/-- A written number that is an `i64` is one in bytes too. -/
def SizeFits (s : String) : Prop := ∀ n k, WritesSize s n k → n < 2 ^ 63 → n * k < 2 ^ 63

section Size

variable {s : String} {l v : List Char} {u : Char} {n k : ℕ}

theorem sizeUnit_isDigit (h : sizeUnit u = some k) : u.isDigit = false := by
  unfold sizeUnit at h
  split at h <;> first | rfl | cases h

theorem sizeUnit_pos (h : sizeUnit u = some k) : 0 < k := by
  unfold sizeUnit at h
  split at h <;> first | (obtain rfl := Option.some.inj h; decide) | cases h

theorem WritesSize.unit_pos (h : WritesSize s n k) : 0 < k := by
  rcases h with ⟨rfl, -⟩ | ⟨v, u, -, hk, -⟩
  · decide
  · exact sizeUnit_pos hk

theorem splitSuffix_concat (h : sizeUnit u = some k) :
    splitSuffix (v ++ [u]) = ((k : ℤ), v) := by
  unfold splitSuffix sizeUnit at *
  rw [List.getLast?_concat, List.dropLast_concat]
  split at h <;> first | (obtain rfl := Option.some.inj h; rfl) | cases h

theorem splitSuffix_of_none (h : ∀ u ∈ l.getLast?, sizeUnit u = none) :
    splitSuffix l = (1, l) := by
  unfold splitSuffix
  split <;> first | rfl | (rename_i e; exact absurd (h _ e) (by decide))

theorem sizeUnit_of_isNumeral (h : IsNumeral l n) : ∀ u ∈ l.getLast?, sizeUnit u = none := by
  obtain ⟨ds, hl, hne, hd, -⟩ := h
  intro u hu
  have hlast : ds.getLast? = some u := by
    rcases hl with rfl | rfl
    · exact hu
    · rw [Option.mem_def, List.getLast?_cons] at hu
      simpa [List.getLast?_eq_getLast_of_ne_nil hne] using hu
  cases hk : sizeUnit u with
  | none => rfl
  | some k =>
      have hdigit := hd u (List.mem_of_getLast? hlast)
      rw [sizeUnit_isDigit hk] at hdigit
      exact Bool.noConfusion hdigit

theorem isNumeral_unique {m : ℕ} (h : IsNumeral l n) (h' : IsNumeral l m) : n = m := by
  have hn := parseUnsigned_eq_some_iff.2 ⟨h, le_max_left n m⟩
  have hm := parseUnsigned_eq_some_iff.2 ⟨h', le_max_right n m⟩
  exact Option.some.inj (hn.symm.trans hm)

/-- Nothing can be read in two ways. -/
theorem WritesSize.unique {n' k' : ℕ} (h : WritesSize s n k) (h' : WritesSize s n' k') :
    n = n' ∧ k = k' := by
  have hlast : ∀ {v u m k}, IsNumeral (v ++ [u]) m → sizeUnit u ≠ some k := by
    intro v u m k hnum
    rw [sizeUnit_of_isNumeral hnum u List.getLast?_concat]
    exact Option.some_ne_none k |>.symm
  rcases h with ⟨rfl, h⟩ | ⟨v, u, hs, hk, h⟩
  · rcases h' with ⟨rfl, h'⟩ | ⟨v', u', hs', hk', -⟩
    · exact ⟨isNumeral_unique h h', rfl⟩
    · exact absurd hk' (hlast (hs' ▸ h))
  · rcases h' with ⟨rfl, h'⟩ | ⟨v', u', hs', hk', h'⟩
    · exact absurd hk (hlast (hs ▸ h'))
    · obtain ⟨rfl, hu⟩ := List.append_inj' (hs.symm.trans hs') rfl
      obtain rfl := List.singleton_inj.1 hu
      exact ⟨isNumeral_unique h h', Option.some.inj (hk.symm.trans hk')⟩

theorem WritesSize.not_blank (h : WritesSize s n k) : trim s.toList ≠ [] := by
  rcases h with ⟨-, ds, hl, hne, -⟩ | ⟨v, u, hs, -⟩
  · rcases hl with hl | hl <;> simp [hl, hne]
  · simp [hs]

theorem exists_multiplier (l : List Char) : ∃ k : ℕ, (splitSuffix l).1 = k := by
  unfold splitSuffix
  split <;> exact ⟨_, rfl⟩

/-- The text before the suffix is the number and the suffix the multiplier. -/
theorem writesSize_iff (hs : trim s.toList ≠ []) : WritesSize s n k ↔
    (splitSuffix (trim s.toList)).1 = k ∧ IsNumeral (trim (splitSuffix (trim s.toList)).2) n := by
  constructor
  · rintro (⟨rfl, h⟩ | ⟨v, u, hs, hk, h⟩)
    · rw [splitSuffix_of_none (sizeUnit_of_isNumeral h), trim_eq_self (trimmed_trim _)]
      exact ⟨rfl, h⟩
    · rw [hs, splitSuffix_concat hk]
      exact ⟨rfl, h⟩
  · rintro ⟨hk, h⟩
    obtain ⟨v, u, hv⟩ : ∃ v u, trim s.toList = v ++ [u] :=
      ⟨_, _, (List.dropLast_append_getLast hs).symm⟩
    cases hu : sizeUnit u with
    | none =>
        have hnone : ∀ u ∈ (trim s.toList).getLast?, sizeUnit u = none := by
          rw [hv, List.getLast?_concat]
          rintro _ ⟨⟩
          exact hu
        rw [splitSuffix_of_none hnone] at hk h
        rw [trim_eq_self (trimmed_trim _)] at h
        exact .inl ⟨Int.ofNat.inj hk.symm, h⟩
    | some k' =>
        rw [hv, splitSuffix_concat hu] at hk h
        exact .inr ⟨v, u, hv, by rw [hu, Int.ofNat.inj hk], h⟩

/-- What is accepted: nothing, or a positive `i64` and a suffix, and the product wraps. -/
theorem parseMemorySize_ok_iff {r : ℤ} : parseMemorySize s = .ok r ↔
    (trim s.toList = [] ∧ r = 0) ∨
      ∃ n k, WritesSize s n k ∧ 0 < n ∧ n < 2 ^ 63 ∧ r = ((n : ℤ) * k).bmod (2 ^ 64) := by
  by_cases hs : trim s.toList = []
  · rw [parseMemorySize, if_pos hs]
    constructor
    · intro h
      exact .inl ⟨hs, (Except.ok.inj h).symm⟩
    · rintro (⟨-, rfl⟩ | ⟨n, k, hw, -⟩)
      · rfl
      · exact absurd hs hw.not_blank
  · rw [parseMemorySize, if_neg hs]
    obtain ⟨k, hk⟩ := exists_multiplier (trim s.toList)
    dsimp only
    rw [hk]
    constructor
    · intro h
      split at h
      · cases h
      rename_i m hm
      split_ifs at h with hpos
      obtain rfl := Except.ok.inj h
      obtain ⟨n, rfl⟩ := Int.eq_ofNat_of_zero_le (show 0 ≤ m by omega)
      obtain ⟨hnum, hmax⟩ := (parseSigned_eq_some_iff (by omega)).1 hm
      exact .inr ⟨n, k, (writesSize_iff hs).2 ⟨hk, hnum⟩, by omega, by omega, rfl⟩
    · rintro (⟨hnil, -⟩ | ⟨n, k', hw, hpos, hn, hr⟩)
      · exact absurd hnil hs
      · obtain ⟨hk', hnum⟩ := (writesSize_iff hs).1 hw
        obtain rfl : k = k' := by omega
        rw [hr, (parseSigned_eq_some_iff hpos).2 ⟨hnum, by omega⟩]
        exact if_neg (by omega)

theorem bmod_of_fits (h : n * k < 2 ^ 63) : ((n : ℤ) * k).bmod (2 ^ 64) = ((n * k : ℕ) : ℤ) := by
  rw [← Int.natCast_mul]
  exact Int.bmod_eq_of_le (by omega) (by omega)

theorem memoryMaxBytes_of_finalizeResources {o : Options} {r : Option AppResources}
    (h : finalizeResources o = .ok r) : ∃ m, parseMemorySize o.memoryMax = .ok m ∧
      r.bind AppResources.memoryMaxBytes = nonZero m := by
  unfold finalizeResources at h
  split_ifs at h with hset
  · split at h
    · cases h
    rename_i m hm
    obtain rfl := Except.ok.inj h
    exact ⟨m, hm, rfl⟩
  · obtain rfl := Except.ok.inj h
    have hempty : o.memoryMax = "" := by
      by_contra hne
      exact hset (.inl hne)
    exact ⟨0, by rw [hempty]; rfl, rfl⟩

end Size

/-- Exactly for the sizes whose bytes fit are the size and the limit in the spec the written
ones. -/
theorem parseMemorySize_iff (s : String) : SizeExact s ↔ SizeFits s := by
  constructor
  · rintro ⟨hexact, -⟩ n k hw hn
    rcases Nat.eq_zero_or_pos n with rfl | hpos
    · rw [Nat.zero_mul]
      decide
    rcases hexact _ (parseMemorySize_ok_iff.2 (.inr ⟨n, k, hw, hpos, hn, rfl⟩)) with
      ⟨hnil, -⟩ | ⟨n', k', hw', -, hr⟩
    · exact absurd hnil hw.not_blank
    · obtain ⟨rfl, rfl⟩ := hw.unique hw'
      have hlt : ((n : ℤ) * k).bmod (2 ^ 64) < (2 ^ 64 + 1) / 2 := Int.bmod_lt (by decide)
      rw [hr, ← Int.natCast_mul] at hlt
      omega
  · intro hfit
    have hexact : ∀ r, parseMemorySize s = .ok r →
        (trim s.toList = [] ∧ r = 0) ∨ ∃ n k, WritesSize s n k ∧ 0 < n ∧ r = n * k := by
      intro r hr
      rcases parseMemorySize_ok_iff.1 hr with hblank | ⟨n, k, hw, hpos, hn, hr'⟩
      · exact .inl hblank
      · refine .inr ⟨n, k, hw, hpos, ?_⟩
        rw [hr', bmod_of_fits (hfit n k hw hn), Int.natCast_mul]
    refine ⟨hexact, fun o r ho hr => ?_⟩
    obtain ⟨m, hm, hlimit⟩ := memoryMaxBytes_of_finalizeResources hr
    rw [hlimit]
    rcases hexact m (ho ▸ hm) with ⟨hnil, rfl⟩ | ⟨n, k, hw, hpos, rfl⟩
    · exact .inl ⟨hnil, rfl⟩
    · have hbytes : 0 < n * k := Nat.mul_pos hpos hw.unit_pos
      rw [← Int.natCast_mul]
      exact .inr ⟨n, k, hw, hpos, if_neg (by omega)⟩

/-- Sixteen exbibytes, written in gibibytes, are no limit. -/
theorem wrapped_size : parseMemorySize "17179869184G" = .ok 0 ∧
    finalizeResources { memoryMax := "17179869184G" } = .ok (some {}) ∧
    WritesSize "17179869184G" (2 ^ 34) (1024 ^ 3) ∧ ¬ SizeExact "17179869184G" := by
  have hw : WritesSize "17179869184G" (2 ^ 34) (1024 ^ 3) :=
    .inr ⟨"17179869184".toList, 'G', by decide +kernel, rfl, "17179869184".toList,
      .inl (by decide +kernel), by decide +kernel, List.all_eq_true.1 (by decide +kernel),
      by decide +kernel⟩
  have hp : parseMemorySize "17179869184G" = .ok 0 := by decide +kernel
  refine ⟨hp, by decide +kernel, hw, fun h => ?_⟩
  rcases h.1 _ hp with ⟨hnil, -⟩ | ⟨n, k, hw', hpos, hzero⟩
  · exact hw.not_blank hnil
  · obtain ⟨rfl, rfl⟩ := hw.unique hw'
    exact absurd hzero (by decide)

end Unitpm.Start
