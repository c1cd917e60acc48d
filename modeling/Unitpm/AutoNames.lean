import Unitpm.StartProtocol

/-! # Names that `unitpm start` makes up

Without `--name`, `run` of `cli::commands::start` names an instance after its program and the first
eight characters of its id, with the number of the instance between them when there are several.
The id is a UUID of version 7: it begins with a timestamp of 48 bits in milliseconds, of which eight
hexadecimal digits hold 32 (`take_text`).  The names of two instances therefore differ by their ids
only if the ids are from different stretches of about 65 seconds (`names_ne_iff`). -/

namespace Unitpm

/-! ### Ids -/

/-- `n` in hexadecimal, with `w` digits. -/
def hexDigits : ℕ → ℕ → List Char
  | 0, _ => []
  | w + 1, n => hexDigits w (n / 16) ++ [Nat.digitChar (n % 16)]

/-- A UUID of version 7: the Unix time in milliseconds, and random bits. -/
structure UuidV7 where
  unixMs : ℕ
  randA : ℕ
  randB : ℕ
  unixMs_lt : unixMs < 2 ^ 48
  randA_lt : randA < 2 ^ 12
  randB_lt : randB < 2 ^ 62
deriving DecidableEq

namespace UuidV7

/-- The five groups of digits, in which version and variant stand before the random bits. -/
def text (u : UuidV7) : String :=
  String.ofList (hexDigits 8 (u.unixMs / 2 ^ 16) ++ '-' :: hexDigits 4 (u.unixMs % 2 ^ 16) ++
    '-' :: hexDigits 4 (7 * 2 ^ 12 + u.randA) ++
    '-' :: hexDigits 4 (2 * 2 ^ 14 + u.randB / 2 ^ 48) ++
    '-' :: hexDigits 12 (u.randB % 2 ^ 48))

end UuidV7

@[simp] theorem length_hexDigits (w n : ℕ) : (hexDigits w n).length = w := by
  induction w generalizing n with
  | zero => rfl
  | succ w ih => rw [hexDigits, List.length_append, ih, List.length_singleton]

theorem digitChar_inj {a b : ℕ} (ha : a < 16) (hb : b < 16)
    (h : Nat.digitChar a = Nat.digitChar b) : a = b := by
  have hall : ∀ i j : Fin 16, Nat.digitChar i.1 = Nat.digitChar j.1 → i = j := by decide
  exact congrArg Fin.val (hall ⟨a, ha⟩ ⟨b, hb⟩ h)

theorem hexDigits_inj {w a b : ℕ} (ha : a < 16 ^ w) (hb : b < 16 ^ w)
    (h : hexDigits w a = hexDigits w b) : a = b := by
  induction w generalizing a b with
  | zero =>
      rw [pow_zero] at ha hb
      omega
  | succ w ih =>
      rw [pow_succ] at ha hb
      obtain ⟨hhigh, hlow⟩ := List.append_inj h (by simp)
      have hdiv : a / 16 = b / 16 :=
        ih (Nat.div_lt_of_lt_mul (by omega)) (Nat.div_lt_of_lt_mul (by omega)) hhigh
      have hmod : a % 16 = b % 16 :=
        digitChar_inj (Nat.mod_lt _ (by omega)) (Nat.mod_lt _ (by omega)) (List.cons.inj hlow).1
      omega

namespace UuidV7

theorem take_text (u : UuidV7) : u.text.toList.take 8 = hexDigits 8 (u.unixMs / 2 ^ 16) := by
  rw [text, String.toList_ofList]
  simp only [List.append_assoc]
  exact List.take_left' (length_hexDigits _ _)

theorem take_text_eq_iff (u v : UuidV7) :
    u.text.toList.take 8 = v.text.toList.take 8 ↔ u.unixMs / 2 ^ 16 = v.unixMs / 2 ^ 16 := by
  rw [take_text, take_text]
  constructor
  · have hu := u.unixMs_lt
    have hv := v.unixMs_lt
    exact hexDigits_inj (by omega) (by omega)
  · exact fun h => by rw [h]

end UuidV7

/-! ### Names -/

/-- The name of an instance behind that of its program. -/
def autoSuffix (scale i : ℕ) (u : UuidV7) : List Char :=
  if scale > 1 then '-' :: (Nat.toDigits 10 (i + 1) ++ '-' :: u.text.toList.take 8)
  else '-' :: u.text.toList.take 8

theorem name_instanceSpec {appSpec : AppSpec} (hname : appSpec.name = "") (scale : ℕ) (u : UuidV7)
    (now : String) (i : ℕ) :
    (instanceSpec appSpec scale u.text now i).name.toList =
      (displayName appSpec).toList ++ autoSuffix scale i u := by
  simp only [instanceSpec, hname, if_true]
  unfold autoSuffix
  split_ifs <;> simp

theorem toDigits_inj {m n : ℕ} (h : Nat.toDigits 10 m = Nat.toDigits 10 n) : m = n := by
  have hval := congrArg (fun l => Nat.ofDigitChars 10 l 0) h
  simpa using hval

/-- Two suffixes are equal only for the same number, or none, and the same high part of the
timestamp. -/
theorem autoSuffix_eq_iff (scale scale' i i' : ℕ) (u v : UuidV7) :
    autoSuffix scale i u = autoSuffix scale' i' v ↔
      (scale > 1 ↔ scale' > 1) ∧ (scale > 1 → i = i') ∧
        u.unixMs / 2 ^ 16 = v.unixMs / 2 ^ 16 := by
  have hlen : ∀ w : UuidV7, (w.text.toList.take 8).length = 8 := by
    intro w
    rw [UuidV7.take_text, length_hexDigits]
  have hu := hlen u
  have hv := hlen v
  have hdigits : ∀ n : ℕ, 0 < (Nat.toDigits 10 n).length := by
    intro n
    exact List.length_pos_iff.mpr Nat.toDigits_ne_nil
  rw [← UuidV7.take_text_eq_iff]
  unfold autoSuffix
  by_cases hs : scale > 1 <;> by_cases hs' : scale' > 1
  · rw [if_pos hs, if_pos hs']
    constructor
    · intro h
      have htail := (List.cons.inj h).2
      have hl := congrArg List.length htail
      simp only [List.length_append, List.length_cons, hu, hv] at hl
      obtain ⟨hdec, hshort⟩ := List.append_inj htail (by omega)
      have hi := toDigits_inj hdec
      exact ⟨iff_of_true hs hs', fun _ => by omega, (List.cons.inj hshort).2⟩
    · rintro ⟨-, hi, hshort⟩
      rw [hi hs, hshort]
  · -- one of the names has a number, and with it more characters
    rw [if_pos hs, if_neg hs']
    refine iff_of_false (fun h => ?_) fun h => hs' (h.1.mp hs)
    have hl := congrArg List.length h
    simp only [List.length_append, List.length_cons, hu, hv] at hl
    omega
  · rw [if_neg hs, if_pos hs']
    refine iff_of_false (fun h => ?_) fun h => hs (h.1.mpr hs')
    have hl := congrArg List.length h
    simp only [List.length_append, List.length_cons, hu, hv] at hl
    omega
  · rw [if_neg hs, if_neg hs']
    constructor
    · exact fun h => ⟨iff_of_false hs hs', fun hgt => absurd hgt hs, (List.cons.inj h).2⟩
    · exact fun h => congrArg _ h.2.2

/-- Two instances without a name of their own get different names if and only if their ids are from
different stretches of 2^16 milliseconds, or one of them alone is numbered, or they have different
numbers. -/
theorem names_ne_iff {s s' : AppSpec} (hs : s.name = "") (hs' : s'.name = "")
    (hbase : displayName s = displayName s') (scale scale' i i' : ℕ) (u v : UuidV7)
    (now now' : String) :
    (instanceSpec s scale u.text now i).name ≠ (instanceSpec s' scale' v.text now' i').name ↔
      u.unixMs / 2 ^ 16 ≠ v.unixMs / 2 ^ 16 ∨ ¬ (scale > 1 ↔ scale' > 1) ∨
        (scale > 1 ∧ i ≠ i') := by
  rw [Ne, ← String.toList_inj, name_instanceSpec hs, name_instanceSpec hs', hbase,
    List.append_cancel_left_eq, autoSuffix_eq_iff]
  tauto

/-- `unitpm start sleep 30`. -/
def namelessSpec : AppSpec := { plainSpec "" with name := "" }

/-- Two ids of the same millisecond. -/
def firstId : UuidV7 := ⟨0x19a3f2c4d5e, 1, 1, by decide, by decide, by decide⟩

def secondId : UuidV7 := ⟨0x19a3f2c4d5e, 1, 2, by decide, by decide, by decide⟩

/-- An id of two minutes later. -/
def laterId : UuidV7 := ⟨0x19a3f2e4d5e, 1, 1, by decide, by decide, by decide⟩

/-- A command that is started twice in a millisecond has one name. -/
theorem sameTime_sameName :
    ¬ ∀ (s s' : AppSpec) (scale scale' i i' : ℕ) (u v : UuidV7) (now now' : String),
      s.name = "" → s'.name = "" → displayName s = displayName s' → u ≠ v →
      (instanceSpec s scale u.text now i).name ≠ (instanceSpec s' scale' v.text now' i').name := by
  intro hall
  apply hall namelessSpec namelessSpec 1 1 0 0 firstId secondId "" "" rfl rfl rfl (by decide)
  rw [← String.toList_inj, name_instanceSpec rfl, name_instanceSpec rfl,
    List.append_cancel_left_eq, autoSuffix_eq_iff]
  exact ⟨Iff.rfl, fun _ => rfl, by decide⟩

/-- A command that is started again two minutes later has another name. -/
theorem later_otherName :
    namelessSpec.name = "" ∧
      (instanceSpec namelessSpec 1 firstId.text "" 0).name ≠
        (instanceSpec namelessSpec 1 laterId.text "" 0).name :=
  ⟨rfl, (names_ne_iff (s := namelessSpec) rfl rfl rfl 1 1 0 0 firstId laterId "" "").mpr
    (.inl (by decide))⟩

end Unitpm
