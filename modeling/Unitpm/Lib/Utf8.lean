import Mathlib.Data.List.Basic
import Mathlib.Algebra.GroupWithZero.Nat
import Mathlib.Tactic.Common

/-! # Text and its bytes

UTF-8 as Rust programs meet it: a `str` is a list of characters, its length and its slices are
counted in bytes (`byteLen`, `splitAtByte`), and a byte buffer may or may not be text (`decode`).

A slice that would cut a character in two does not exist: `splitAtByte` is `none` there, where
Rust panics. -/

namespace Utf8

/-! ### Encoding -/

/-- The bytes of a text. -/
def encode (l : List Char) : List UInt8 := l.flatMap String.utf8EncodeChar

/-- `str::from_utf8`. -/
def decode (b : List UInt8) : Option (List Char) := (b.toByteArray.utf8Decode?).map Array.toList

@[simp] theorem encode_nil : encode [] = [] := rfl

@[simp] theorem encode_cons (c : Char) (l : List Char) :
    encode (c :: l) = String.utf8EncodeChar c ++ encode l := rfl

@[simp] theorem encode_append (l m : List Char) : encode (l ++ m) = encode l ++ encode m :=
  List.flatMap_append

theorem toByteArray_encode (l : List Char) : (encode l).toByteArray = l.utf8Encode := rfl

@[simp] theorem decode_encode (l : List Char) : decode (encode l) = some l := by
  rw [decode, toByteArray_encode, List.utf8Decode?_utf8Encode]
  rfl

theorem encode_injective : Function.Injective encode := by
  intro l m h
  have := congrArg decode h
  simpa using this

theorem encode_of_decode {b : List UInt8} {l : List Char} (h : decode b = some l) :
    encode l = b := by
  obtain ⟨a, ha, rfl⟩ := Option.map_eq_some_iff.mp h
  have hs : b.toByteArray.utf8Decode?.isSome = true := by rw [ha]; rfl
  have he := ByteArray.utf8Encode_get_utf8Decode? (b := b.toByteArray) (h := hs)
  rw [Option.get_of_eq_some hs ha, ← toByteArray_encode] at he
  simpa using congrArg ByteArray.data he

theorem encodeChar_append_inj {c d : Char} {x y : List UInt8}
    (h : String.utf8EncodeChar c ++ x = String.utf8EncodeChar d ++ y) : c = d ∧ x = y := by
  have hdec : ∀ (e : Char) (z : List UInt8),
      (String.utf8EncodeChar e ++ z).toByteArray.utf8DecodeChar? 0 = some e := by
    intro e z
    rw [List.toByteArray_append]
    exact ByteArray.utf8DecodeChar?_utf8EncodeChar_append
  have hcd : some c = some d := by rw [← hdec c x, h, hdec d y]
  obtain rfl := Option.some.inj hcd
  exact ⟨rfl, List.append_cancel_left h⟩

theorem prefix_of_encode {l m : List Char} (h : encode l <+: encode m) : l <+: m := by
  obtain ⟨z, hz⟩ := h
  induction l generalizing m with
  | nil => exact List.nil_prefix
  | cons c l ih =>
      cases m with
      | nil => simp [String.utf8EncodeChar_ne_nil] at hz
      | cons d m =>
          rw [encode_cons, encode_cons, List.append_assoc] at hz
          obtain ⟨rfl, htail⟩ := encodeChar_append_inj hz
          exact List.cons_prefix_cons.mpr ⟨rfl, ih htail⟩

/-- A byte below 128 stands for the character with that number. -/
theorem toNat_of_mem_encodeChar {c : Char} {b : UInt8} (hb : b ∈ String.utf8EncodeChar c)
    (h : b.toNat < 128) : c.toNat = b.toNat := by
  have hv : c.val.toNat = c.toNat := rfl
  unfold String.utf8EncodeChar at hb
  simp only [hv] at hb
  split at hb
  · obtain rfl : b = UInt8.ofNat c.toNat := by simpa using hb
    rw [UInt8.toNat_ofNat']
    omega
  · exfalso
    split at hb
    · simp only [List.mem_cons, List.not_mem_nil, or_false] at hb
      rcases hb with rfl | rfl <;> rw [UInt8.toNat_ofNat'] at h <;> omega
    · split at hb
      · simp only [List.mem_cons, List.not_mem_nil, or_false] at hb
        rcases hb with rfl | rfl | rfl <;> rw [UInt8.toNat_ofNat'] at h <;> omega
      · simp only [List.mem_cons, List.not_mem_nil, or_false] at hb
        rcases hb with rfl | rfl | rfl | rfl <;> rw [UInt8.toNat_ofNat'] at h <;> omega

/-- The byte of a line feed. -/
def lineFeed : UInt8 := 10

@[simp] theorem encodeChar_newline : String.utf8EncodeChar '\n' = [lineFeed] := by decide

theorem lineFeed_mem_encode {l : List Char} : lineFeed ∈ encode l ↔ '\n' ∈ l := by
  constructor
  · intro h
    obtain ⟨c, hc, hb⟩ := List.mem_flatMap.mp h
    have hn : c.toNat = 10 := toNat_of_mem_encodeChar hb (by decide)
    obtain rfl : c = '\n' := Char.toNat_inj.mp hn
    exact hc
  · intro h
    exact List.mem_flatMap.mpr ⟨'\n', h, by simp⟩

/-! ### Lengths and slices in bytes -/

/-- `str::len`. -/
def byteLen (l : List Char) : ℕ := (l.map Char.utf8Size).sum

/-- The text before and after byte `n`; `none` inside a character and behind the end. -/
def splitAtByte : ℕ → List Char → Option (List Char × List Char)
  | 0, l => some ([], l)
  | _ + 1, [] => none
  | n + 1, c :: l =>
      if c.utf8Size ≤ n + 1 then
        (splitAtByte (n + 1 - c.utf8Size) l).map fun p => (c :: p.1, p.2)
      else none

@[simp] theorem byteLen_nil : byteLen [] = 0 := rfl

@[simp] theorem byteLen_cons (c : Char) (l : List Char) :
    byteLen (c :: l) = c.utf8Size + byteLen l := by simp [byteLen]

@[simp] theorem byteLen_append (l m : List Char) : byteLen (l ++ m) = byteLen l + byteLen m := by
  simp [byteLen]

theorem byteLen_eq_length {l : List Char} (h : ∀ c ∈ l, c.utf8Size = 1) :
    byteLen l = l.length := by
  induction l with
  | nil => rfl
  | cons c l ih =>
      rw [byteLen_cons, h c (by simp), ih fun d hd => h d (by simp [hd]), List.length_cons]
      omega

theorem splitAtByte_add (l m : List Char) (n : ℕ) :
    splitAtByte (byteLen l + n) (l ++ m) = (splitAtByte n m).map fun p => (l ++ p.1, p.2) := by
  induction l with
  | nil => simp
  | cons c l ih =>
      have hc := c.utf8Size_pos
      obtain ⟨k, hk⟩ : ∃ k, byteLen (c :: l) + n = k + 1 := ⟨byteLen (c :: l) + n - 1, by
        rw [byteLen_cons]; omega⟩
      have hle : c.utf8Size ≤ k + 1 := by rw [← hk, byteLen_cons]; omega
      have hsub : k + 1 - c.utf8Size = byteLen l + n := by rw [← hk, byteLen_cons]; omega
      rw [hk, List.cons_append, splitAtByte, if_pos hle, hsub, ih, Option.map_map]
      rfl

theorem splitAtByte_append (l m : List Char) : splitAtByte (byteLen l) (l ++ m) = some (l, m) := by
  have h := splitAtByte_add l m 0
  rw [Nat.add_zero] at h
  rw [h, splitAtByte]
  simp

theorem append_of_splitAtByte {n : ℕ} {l a b : List Char} (h : splitAtByte n l = some (a, b)) :
    l = a ++ b ∧ byteLen a = n := by
  induction l generalizing n a b with
  | nil =>
      cases n with
      | zero =>
          obtain ⟨rfl, rfl⟩ : [] = a ∧ [] = b := by simpa [splitAtByte] using h
          simp
      | succ n => simp [splitAtByte] at h
  | cons c l ih =>
      cases n with
      | zero =>
          obtain ⟨rfl, rfl⟩ : [] = a ∧ c :: l = b := by simpa [splitAtByte] using h
          simp
      | succ n =>
          rw [splitAtByte] at h
          split at h
          · obtain ⟨⟨a', b'⟩, hp, he⟩ := Option.map_eq_some_iff.mp h
            obtain ⟨rfl, rfl⟩ := Prod.mk.inj he
            obtain ⟨rfl, hlen⟩ := ih hp
            refine ⟨rfl, ?_⟩
            rw [byteLen_cons, hlen]
            omega
          · cases h

/-! ### Bytes from the middle of a text -/

@[simp] theorem length_encode (l : List Char) : (encode l).length = byteLen l := by
  induction l with
  | nil => rfl
  | cons c l ih =>
      rw [encode_cons, List.length_append, ih, byteLen_cons, String.length_utf8EncodeChar]

/-- Only the first byte of a character can begin one. -/
theorem drop_encodeChar_ne {c d : Char} {k : ℕ} (h0 : 0 < k) (hk : k < d.utf8Size)
    (x y : List UInt8) : (String.utf8EncodeChar d).drop k ++ x ≠ String.utf8EncodeChar c ++ y := by
  intro h
  have hlen : k < (String.utf8EncodeChar d).length := by rwa [String.length_utf8EncodeChar]
  have hpos : 0 < (String.utf8EncodeChar c).length := by
    rw [String.length_utf8EncodeChar]
    exact c.utf8Size_pos
  have hc : (String.utf8EncodeChar c)[0].IsUTF8FirstByte :=
    UInt8.isUTF8FirstByte_getElem_zero_utf8EncodeChar
  have hd : ¬ (String.utf8EncodeChar d)[k].IsUTF8FirstByte := by
    rw [UInt8.isUTF8FirstByte_getElem_utf8EncodeChar]
    omega
  have hhead := congrArg List.head? h
  rw [List.drop_eq_getElem_cons hlen, List.cons_append, List.head?_cons,
    List.head?_append_of_ne_nil _ (List.ne_nil_of_length_pos hpos), List.head?_eq_getElem?,
    List.getElem?_eq_getElem hpos] at hhead
  rw [Option.some.inj hhead] at hd
  exact hd hc

/-- Bytes from the middle of a text on that begin with a character begin between two of its
characters. -/
theorem append_of_drop_encode {s : List Char} {c : Char} {k : ℕ} {y : List UInt8}
    (h : (encode s).drop k = String.utf8EncodeChar c ++ y) :
    ∃ a b, s = a ++ b ∧ byteLen a = k ∧ encode b = String.utf8EncodeChar c ++ y := by
  induction s generalizing k with
  | nil => simp [String.utf8EncodeChar_ne_nil] at h
  | cons d s ih =>
      rw [encode_cons d] at h
      rcases Nat.lt_or_ge k d.utf8Size with hk | hk
      · rcases Nat.eq_zero_or_pos k with rfl | h0
        · exact ⟨[], d :: s, rfl, rfl, h⟩
        · have hle : k ≤ (String.utf8EncodeChar d).length := by
            rw [String.length_utf8EncodeChar]
            omega
          rw [List.drop_append_of_le_length hle] at h
          exact absurd h (drop_encodeChar_ne h0 hk _ _)
      · obtain ⟨j, rfl⟩ : ∃ j, k = d.utf8Size + j := ⟨k - d.utf8Size, by omega⟩
        rw [← String.length_utf8EncodeChar, List.drop_length_add_append] at h
        obtain ⟨a, b, rfl, ha, hb⟩ := ih h
        exact ⟨d :: a, b, rfl, by rw [byteLen_cons, ha], hb⟩

end Utf8
