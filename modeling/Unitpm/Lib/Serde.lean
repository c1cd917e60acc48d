import Mathlib.Data.List.Induction
import Mathlib.Data.List.Sort
import Mathlib.Data.String.Basic
import Unitpm.Lib.Json

/-! # Typed values in JSON

How a derived serializer writes the values of a type as a JSON tree and how the derived
deserializer reads them back.  A `Shape` is the pair with the law that joins them: what is written
is read, also after the members of its objects have changed places (`Rearranges`), as they do in
a tree with sorted maps (`toValue`).

A struct is described once, field by field (`Record`): required, optional, or a flag that is left
out when it is off.  Reading an object goes through its members in order, ignores unknown names,
refuses a name given twice, and then asks for the required ones (`Record.decode`).
`Record.shape` is the law for a struct whose names are distinct. -/

namespace Serde

/-- Why a tree is not read. -/
inductive Error where
  | eof
  | invalidType (expected : String)
  | invalidValue (expected : String)
  | missingField (name : String)
  | duplicateField (name : String)
  | invalidLength (length : ℕ)
deriving DecidableEq

/-! ### Rearrangements -/

/-- The function changes at most the order of the members of objects, and keeps one of those that
have the same name. -/
structure Rearranges (f : Json → Json) : Prop where
  null : f .null = .null
  bool : ∀ b, f (.bool b) = .bool b
  num : ∀ n, f (.num n) = .num n
  real : ∀ t, f (.real t) = .real t
  str : ∀ s, f (.str s) = .str s
  arr : ∀ l, f (.arr l) = .arr (l.map f)
  obj : ∀ l, ∃ l', f (.obj l) = .obj l' ∧
    ((l.map Prod.fst).Nodup → l'.Perm (l.map fun p => (p.1, f p.2)))

namespace Rearranges

theorem refl : Rearranges fun j => j where
  null := rfl
  bool _ := rfl
  num _ := rfl
  real _ := rfl
  str _ := rfl
  arr l := by simp
  obj l := ⟨l, rfl, fun _ => by simp⟩

variable {f g : Json → Json}

theorem comp (hf : Rearranges f) (hg : Rearranges g) : Rearranges fun j => f (g j) where
  null := by rw [hg.null, hf.null]
  bool b := by rw [hg.bool, hf.bool]
  num n := by rw [hg.num, hf.num]
  real t := by rw [hg.real, hf.real]
  str s := by rw [hg.str, hf.str]
  arr l := by
    rw [hg.arr, hf.arr, List.map_map]
    rfl
  obj l := by
    obtain ⟨l₁, h₁, hp₁⟩ := hg.obj l
    obtain ⟨l₂, h₂, hp₂⟩ := hf.obj l₁
    refine ⟨l₂, by rw [h₁, h₂], fun hn => ?_⟩
    have hn₁ : (l₁.map Prod.fst).Nodup := by
      rw [((hp₁ hn).map Prod.fst).nodup_iff, List.map_map]
      exact hn
    apply (hp₂ hn₁).trans
    have := (hp₁ hn).map fun p : String × Json => (p.1, f p.2)
    rwa [List.map_map] at this

theorem ne_null (hf : Rearranges f) {j : Json} (hj : j ≠ .null) : f j ≠ .null := by
  cases j with
  | null => exact absurd rfl hj
  | bool b => simp [hf.bool]
  | num n => simp [hf.num]
  | real t => simp [hf.real]
  | str s => simp [hf.str]
  | arr l => simp [hf.arr]
  | obj l =>
      obtain ⟨l', h, -⟩ := hf.obj l
      simp [h]

end Rearranges

/-! ### Maps with sorted keys -/

section Members

variable {β : Type}

/-- `BTreeMap::insert`. -/
def insertMember (k : String) (v : β) : List (String × β) → List (String × β)
  | [] => [(k, v)]
  | (k', v') :: l =>
      if k < k' then (k, v) :: (k', v') :: l
      else if k = k' then (k, v) :: l
      else (k', v') :: insertMember k v l

/-- The map that results from the members, inserted one after the other. -/
def ofMembers (l : List (String × β)) : List (String × β) :=
  l.foldl (fun m p => insertMember p.1 p.2 m) []

theorem mem_keys_insertMember {k k' : String} {v : β} {l : List (String × β)}
    (h : k' ∈ (insertMember k v l).map Prod.fst) : k' = k ∨ k' ∈ l.map Prod.fst := by
  induction l with
  | nil => simpa [insertMember] using h
  | cons p l ih =>
      obtain ⟨k₀, v₀⟩ := p
      simp only [insertMember] at h
      split_ifs at h with hlt heq
      · simpa using h
      · subst heq
        simpa using h
      · rw [List.map_cons, List.mem_cons] at h
        rcases h with rfl | h
        · simp
        · rcases ih h with rfl | h
          · simp
          · simp only [List.map_cons, List.mem_cons]
            exact .inr (.inr h)

theorem mem_insertMember_self (k : String) (v : β) (l : List (String × β)) :
    (k, v) ∈ insertMember k v l := by
  induction l with
  | nil => simp [insertMember]
  | cons p l ih =>
      simp only [insertMember]
      split_ifs
      · simp
      · simp
      · exact List.mem_cons_of_mem _ ih

/-- An insertion keeps the keys in order. -/
theorem sorted_insertMember {k : String} {v : β} {l : List (String × β)}
    (h : (l.map Prod.fst).Pairwise (· < ·)) :
    ((insertMember k v l).map Prod.fst).Pairwise (· < ·) := by
  induction l with
  | nil => simp [insertMember]
  | cons p l ih =>
      obtain ⟨k₀, v₀⟩ := p
      rw [List.map_cons, List.pairwise_cons] at h
      obtain ⟨hk, hl⟩ := h
      simp only [insertMember]
      split_ifs with hlt heq
      · simp only [List.map_cons, List.pairwise_cons]
        refine ⟨fun k' hk' => ?_, hk, hl⟩
        rcases List.mem_cons.mp hk' with rfl | hk'
        · exact hlt
        · exact hlt.trans (hk k' hk')
      · subst heq
        exact List.pairwise_cons.mpr ⟨hk, hl⟩
      · refine List.pairwise_cons.mpr ⟨fun k' hk' => ?_, ih hl⟩
        rcases mem_keys_insertMember hk' with rfl | hk'
        · exact lt_of_le_of_ne (not_lt.mp hlt) (Ne.symm heq)
        · exact hk k' hk'

theorem perm_insertMember {k : String} {v : β} {l : List (String × β)}
    (h : k ∉ l.map Prod.fst) : (insertMember k v l).Perm ((k, v) :: l) := by
  induction l with
  | nil => exact List.Perm.refl _
  | cons p l ih =>
      obtain ⟨k₀, v₀⟩ := p
      rw [List.map_cons, List.mem_cons, not_or] at h
      simp only [insertMember, if_neg h.1]
      split_ifs
      · exact List.Perm.refl _
      · exact ((ih h.2).cons _).trans (List.Perm.swap _ _ _)

theorem sorted_ofMembers (l : List (String × β)) :
    ((ofMembers l).map Prod.fst).Pairwise (· < ·) := by
  induction l using List.reverseRecOn with
  | nil => exact List.Pairwise.nil
  | append_singleton l p ih =>
      rw [ofMembers, List.foldl_append]
      exact sorted_insertMember ih

/-- Members with distinct names are only sorted. -/
theorem perm_ofMembers {l : List (String × β)} (h : (l.map Prod.fst).Nodup) :
    (ofMembers l).Perm l := by
  induction l using List.reverseRecOn with
  | nil => exact List.Perm.refl _
  | append_singleton l p ih =>
      rw [List.map_append, List.map_singleton, List.nodup_append_comm, List.singleton_append,
        List.nodup_cons] at h
      have hk : p.1 ∉ (ofMembers l).map Prod.fst := by
        rw [((ih h.2).map Prod.fst).mem_iff]
        exact h.1
      rw [ofMembers, List.foldl_append]
      calc insertMember p.1 p.2 (ofMembers l)
          _ |>.Perm (p :: ofMembers l) := perm_insertMember hk
          _ |>.Perm (p :: l) := (ih h.2).cons p
          _ |>.Perm (l ++ [p]) := (List.perm_append_singleton p l).symm

theorem ofMembers_eq_of_perm {l m : List (String × β)} (hm : (m.map Prod.fst).Pairwise (· < ·))
    (h : l.Perm m) : ofMembers l = m := by
  have hn : (l.map Prod.fst).Nodup := by
    rw [(h.map Prod.fst).nodup_iff]
    exact hm.imp fun hlt => ne_of_lt hlt
  refine ((perm_ofMembers hn).trans h).eq_of_pairwise ?_
    (List.pairwise_map.mp (sorted_ofMembers l)) (List.pairwise_map.mp hm)
  intro a b _ _ hab hba
  exact absurd hab (not_lt.mpr hba.le)

end Members

mutual

/-- `serde_json::Value`: the objects are maps. -/
def toValue : Json → Json
  | .null => .null
  | .bool b => .bool b
  | .num n => .num n
  | .real t => .real t
  | .str s => .str s
  | .arr l => .arr (toValues l)
  | .obj l => .obj (ofMembers (toMembers l))

def toValues : List Json → List Json
  | [] => []
  | j :: l => toValue j :: toValues l

def toMembers : List (String × Json) → List (String × Json)
  | [] => []
  | (k, j) :: l => (k, toValue j) :: toMembers l

end

theorem toValues_eq (l : List Json) : toValues l = l.map toValue := by
  induction l with
  | nil => rfl
  | cons j l ih => rw [toValues, ih, List.map_cons]

theorem toMembers_eq (l : List (String × Json)) :
    toMembers l = l.map fun p => (p.1, toValue p.2) := by
  induction l with
  | nil => rfl
  | cons p l ih => rw [toMembers, ih, List.map_cons]

theorem rearranges_toValue : Rearranges toValue where
  null := rfl
  bool _ := rfl
  num _ := rfl
  real _ := rfl
  str _ := rfl
  arr l := by rw [toValue, toValues_eq]
  obj l := by
    refine ⟨_, rfl, fun hn => ?_⟩
    rw [toMembers_eq]
    apply perm_ofMembers
    rw [List.map_map]
    exact hn

/-! ### Shapes -/

/-- How the values of a type are written and read. -/
structure Shape (α : Type) where
  Valid : α → Prop
  encode : α → Json
  decode : Json → Except Error α
  decode_rearranged : ∀ {f}, Rearranges f → ∀ {a}, Valid a → decode (f (encode a)) = .ok a
  encode_ne_null : ∀ a, encode a ≠ .null

theorem Shape.decode_encode {α : Type} (c : Shape α) {a : α} (h : c.Valid a) :
    c.decode (c.encode a) = .ok a := c.decode_rearranged Rearranges.refl h

def string : Shape String where
  Valid _ := True
  encode := .str
  decode
    | .str s => .ok s
    | _ => .error (.invalidType "a string")
  decode_rearranged hf _ _ := by rw [hf.str]
  encode_ne_null _ := by simp

def bool : Shape Bool where
  Valid _ := True
  encode := .bool
  decode
    | .bool b => .ok b
    | _ => .error (.invalidType "a boolean")
  decode_rearranged hf _ _ := by rw [hf.bool]
  encode_ne_null _ := by simp

/-- The integers from `-2 ^ w` up to, not including, `2 ^ w`. -/
def signed (w : ℕ) (name : String) : Shape ℤ where
  Valid n := -2 ^ w ≤ n ∧ n < 2 ^ w
  encode := .num
  decode
    | .num n => if -2 ^ w ≤ n ∧ n < 2 ^ w then .ok n else .error (.invalidValue name)
    | _ => .error (.invalidType name)
  decode_rearranged hf _ h := by
    rw [hf.num]
    exact if_pos h
  encode_ne_null _ := by simp

def i32 : Shape ℤ := signed 31 "i32"

def i64 : Shape ℤ := signed 63 "i64"

section Vec

variable {α : Type} (c : Shape α)

def decodeVec : List Json → Except Error (List α)
  | [] => .ok []
  | j :: l =>
      match c.decode j with
      | .error e => .error e
      | .ok a => (decodeVec l).map (a :: ·)

theorem decodeVec_rearranged {f : Json → Json} (hf : Rearranges f) {l : List α}
    (h : ∀ a ∈ l, c.Valid a) : decodeVec c ((l.map c.encode).map f) = .ok l := by
  induction l with
  | nil => rfl
  | cons a l ih =>
      obtain ⟨ha, hl⟩ := List.forall_mem_cons.mp h
      simp only [List.map_cons, decodeVec, c.decode_rearranged hf ha, ih hl]
      rfl

def vec : Shape (List α) where
  Valid l := ∀ a ∈ l, c.Valid a
  encode l := .arr (l.map c.encode)
  decode
    | .arr l => decodeVec c l
    | _ => .error (.invalidType "a sequence")
  decode_rearranged hf l h := by
    rw [hf.arr]
    exact decodeVec_rearranged c hf h
  encode_ne_null _ := by simp

end Vec

/-! ### Structs -/

/-- One field of a struct `σ`: its name, whether a tree can be its value, and what is written for
it, if anything is. -/
structure Field (σ : Type) where
  name : String
  check : Json → Except Error Unit
  Valid : σ → Prop
  entry : σ → Option Json
  check_entry : ∀ {f}, Rearranges f → ∀ {s j}, Valid s → entry s = some j → check (f j) = .ok ()

/-- The fields that an `α` is read from, and what is read when a struct `σ` has been written. -/
structure Record (σ α : Type) where
  fields : List (Field σ)
  build : (String → Option Json) → Except Error α
  value : σ → α
  build_entries : ∀ {f}, Rearranges f → ∀ {s slots}, (∀ fd ∈ fields, fd.Valid s) →
    (∀ fd ∈ fields, slots fd.name = (fd.entry s).map f) → build slots = .ok (value s)
  build_congr : ∀ {slots slots'}, (∀ fd ∈ fields, slots fd.name = slots' fd.name) →
    build slots = build slots'

namespace Record

variable {σ α β : Type}

/-- No field yet. -/
def nil (mk : α) : Record σ α where
  fields := []
  build _ := .ok mk
  value _ := mk
  build_entries _ _ _ _ _ := rfl
  build_congr _ := rfl

/-- One more field, with how its value is read from what stands under its name. -/
def snoc (R : Record σ (α → β)) (fd : Field σ) (get : σ → α)
    (read : Option Json → Except Error α)
    (hread : ∀ {f}, Rearranges f → ∀ {s}, fd.Valid s → read ((fd.entry s).map f) = .ok (get s)) :
    Record σ β where
  fields := R.fields ++ [fd]
  build slots :=
    match R.build slots with
    | .error e => .error e
    | .ok g => (read (slots fd.name)).map g
  value s := R.value s (get s)
  build_entries hf s slots hv hs := by
    have hmem : fd ∈ R.fields ++ [fd] := by simp
    rw [R.build_entries hf (fun fd' h => hv fd' (List.mem_append_left _ h))
      (fun fd' h => hs fd' (List.mem_append_left _ h)), hs fd hmem]
    simp only [hread hf (hv fd hmem)]
    rfl
  build_congr hs := by
    rw [R.build_congr fun fd' h => hs fd' (List.mem_append_left _ h), hs fd (by simp)]

end Record

section Fields

variable {σ α β : Type}

/-- What `Option` makes of a tree: `null` is no value. -/
def decodeOption (c : Shape α) : Json → Except Error (Option α)
  | .null => .ok none
  | j => (c.decode j).map some

theorem decodeOption_rearranged {c : Shape α} {f : Json → Json} (hf : Rearranges f) {a : α}
    (h : c.Valid a) : decodeOption c (f (c.encode a)) = .ok (some a) := by
  unfold decodeOption
  split
  · rename_i hnull
    exact absurd hnull (hf.ne_null (c.encode_ne_null a))
  · rw [c.decode_rearranged hf h]
    rfl

def Field.required (name : String) (get : σ → α) (c : Shape α) : Field σ where
  name := name
  check j := (c.decode j).map fun _ => ()
  Valid s := c.Valid (get s)
  entry s := some (c.encode (get s))
  check_entry hf s j hs hj := by
    obtain rfl := Option.some.inj hj
    rw [c.decode_rearranged hf hs]
    rfl

def Field.optional (name : String) (get : σ → Option α) (c : Shape α) : Field σ where
  name := name
  check j := (decodeOption c j).map fun _ => ()
  Valid s := ∀ a, get s = some a → c.Valid a
  entry s := (get s).map c.encode
  check_entry hf s j hs hj := by
    obtain ⟨a, ha, rfl⟩ := Option.map_eq_some_iff.mp hj
    rw [decodeOption_rearranged hf (hs a ha)]
    rfl

def Field.flag (name : String) (get : σ → Bool) : Field σ where
  name := name
  check j := (bool.decode j).map fun _ => ()
  Valid _ := True
  entry s := if get s then some (.bool true) else none
  check_entry hf s j _ hj := by
    split_ifs at hj
    obtain rfl := Option.some.inj hj
    rw [hf.bool]
    rfl

def readRequired (name : String) (c : Shape α) : Option Json → Except Error α
  | none => .error (.missingField name)
  | some j => c.decode j

def readDefault (dflt : α) (c : Shape α) : Option Json → Except Error α
  | none => .ok dflt
  | some j => c.decode j

def readOptional (c : Shape α) : Option Json → Except Error (Option α)
  | none => .ok none
  | some j => decodeOption c j

def readFlag : Option Json → Except Error Bool
  | none => .ok false
  | some j => bool.decode j

theorem readOptional_entry {c : Shape α} {f : Json → Json} (hf : Rearranges f) {o : Option α}
    (h : ∀ a, o = some a → c.Valid a) : readOptional c ((o.map c.encode).map f) = .ok o := by
  cases o with
  | none => rfl
  | some a => exact decodeOption_rearranged hf (h a rfl)

theorem readFlag_entry {f : Json → Json} (hf : Rearranges f) (b : Bool) :
    readFlag ((if b then some (.bool true) else none).map f) = .ok b := by
  cases b with
  | false => rfl
  | true =>
      simp only [if_true, Option.map_some, hf.bool]
      rfl

namespace Record

/-- A field that is always written. -/
def required (R : Record σ (α → β)) (name : String) (get : σ → α) (c : Shape α) : Record σ β :=
  R.snoc (.required name get c) get (readRequired name c) fun hf _ hs => c.decode_rearranged hf hs

/-- `#[serde(default)]`, the default being `dflt`. -/
def withDefault (R : Record σ (α → β)) (name : String) (get : σ → α) (dflt : α) (c : Shape α) :
    Record σ β :=
  R.snoc (.required name get c) get (readDefault dflt c) fun hf _ hs => c.decode_rearranged hf hs

/-- `#[serde(default, skip_serializing_if = "Option::is_none")]`. -/
def optional (R : Record σ (Option α → β)) (name : String) (get : σ → Option α) (c : Shape α) :
    Record σ β :=
  R.snoc (.optional name get c) get (readOptional c) fun hf _ hs => readOptional_entry hf hs

/-- `#[serde(default, skip_serializing_if = "is_false")]`. -/
def flag (R : Record σ (Bool → β)) (name : String) (get : σ → Bool) : Record σ β :=
  R.snoc (.flag name get) get readFlag fun hf _ _ => readFlag_entry hf _

end Record

end Fields

namespace Record

variable {σ α : Type}

/-! ### Writing and reading a struct -/

variable (R : Record σ α)

/-- Every field can be written. -/
def Valid (s : σ) : Prop := ∀ fd ∈ R.fields, fd.Valid s

def names : List String := R.fields.map Field.name

/-- The members that are written for a struct. -/
def members (s : σ) : List (String × Json) :=
  R.fields.filterMap fun fd => (fd.entry s).map fun j => (fd.name, j)

/-- The field of a name. -/
def find (k : String) : Option (Field σ) := R.fields.find? fun fd => fd.name = k

/-- The pass over the members of an object. -/
def visit : List String → List (String × Json) → Except Error Unit
  | _, [] => .ok ()
  | seen, (k, j) :: l =>
      match R.find k with
      | none => visit seen l
      | some fd =>
          if k ∈ seen then .error (.duplicateField k)
          else match fd.check j with
            | .error e => .error e
            | .ok _ => visit (k :: seen) l

/-- The pass over the items of an array, field by field. -/
def visitItems : List (Field σ) → List Json → Except Error Unit
  | _, [] => .ok ()
  | [], j :: l => .error (.invalidLength (R.fields.length + (j :: l).length))
  | fd :: fds, j :: l =>
      match fd.check j with
      | .error e => .error e
      | .ok _ => visitItems fds l

def decode : Json → Except Error α
  | .obj l =>
      match R.visit [] l with
      | .error e => .error e
      | .ok _ => R.build fun k => l.lookup k
  | .arr l =>
      match R.visitItems R.fields l with
      | .error e => .error e
      | .ok _ =>
          -- a required field past the end
          match R.build fun k => (R.names.zip l).lookup k with
          | .error _ => .error (.invalidLength l.length)
          | .ok a => .ok a
  | _ => .error (.invalidType "a map")

variable {R}

theorem visit_ok {l : List (String × Json)} {seen : List String} (hn : (l.map Prod.fst).Nodup)
    (hseen : ∀ p ∈ l, p.1 ∉ seen)
    (hcheck : ∀ p ∈ l, ∀ fd, R.find p.1 = some fd → fd.check p.2 = .ok ()) :
    R.visit seen l = .ok () := by
  induction l generalizing seen with
  | nil => rfl
  | cons p l ih =>
      obtain ⟨k, j⟩ := p
      obtain ⟨hk, hl⟩ := List.nodup_cons.mp hn
      obtain ⟨hseen₁, hseen₂⟩ := List.forall_mem_cons.mp hseen
      obtain ⟨hcheck₁, hcheck₂⟩ := List.forall_mem_cons.mp hcheck
      rw [visit]
      cases hfind : R.find k with
      | none => exact ih hl hseen₂ hcheck₂
      | some fd =>
          simp only [if_neg hseen₁, hcheck₁ fd hfind]
          refine ih hl (fun p hp => ?_) hcheck₂
          simp only [List.mem_cons, not_or]
          refine ⟨?_, hseen₂ p hp⟩
          rintro rfl
          exact hk (List.mem_map.mpr ⟨p, hp, rfl⟩)

theorem mem_members {s : σ} {p : String × Json} :
    p ∈ R.members s ↔ ∃ fd ∈ R.fields, fd.entry s = some p.2 ∧ fd.name = p.1 := by
  simp only [members, List.mem_filterMap, Option.map_eq_some_iff]
  constructor
  · rintro ⟨fd, hfd, j, hj, rfl⟩
    exact ⟨fd, hfd, hj, rfl⟩
  · rintro ⟨fd, hfd, hj, hname⟩
    exact ⟨fd, hfd, p.2, hj, by rw [hname]⟩

theorem sublist_names (s : σ) : ((R.members s).map Prod.fst).Sublist R.names := by
  unfold members names
  induction R.fields with
  | nil => exact List.Sublist.refl _
  | cons fd fds ih =>
      cases hj : fd.entry s with
      | none =>
          rw [List.filterMap_cons_none (by simp [hj]), List.map_cons]
          exact ih.cons _
      | some j =>
          rw [List.filterMap_cons_some (by rw [hj]; rfl), List.map_cons, List.map_cons]
          exact ih.cons_cons _

theorem lookup_eq_of_mem {l : List (String × Json)} (hn : (l.map Prod.fst).Nodup) {k : String}
    {j : Json} (h : (k, j) ∈ l) : l.lookup k = some j := by
  induction l with
  | nil => cases h
  | cons p l ih =>
      obtain ⟨hp, hl⟩ := List.nodup_cons.mp hn
      rcases List.mem_cons.mp h with rfl | h
      · simp
      · have hne : k ≠ p.1 := by
          rintro rfl
          exact hp (List.mem_map.mpr ⟨_, h, rfl⟩)
        rw [List.lookup_cons, beq_false_of_ne hne]
        exact ih hl h

/-- **What is written is read**, in whatever order its members arrive. -/
theorem decode_rearranged (hnames : R.names.Nodup) {f : Json → Json} (hf : Rearranges f) {s : σ}
    (hs : R.Valid s) : R.decode (f (.obj (R.members s))) = .ok (R.value s) := by
  obtain ⟨l, hl, hperm⟩ := hf.obj (R.members s)
  have hkeys : ((R.members s).map Prod.fst).Nodup := hnames.sublist (sublist_names s)
  have hperm := hperm hkeys
  have hn : (l.map Prod.fst).Nodup := by
    rw [(hperm.map Prod.fst).nodup_iff, List.map_map]
    exact hkeys
  have hmem : ∀ k j, (k, j) ∈ l ↔ ∃ fd ∈ R.fields, fd.name = k ∧ (fd.entry s).map f = some j := by
    intro k j
    rw [hperm.mem_iff]
    simp only [List.mem_map, mem_members, Option.map_eq_some_iff, Prod.mk.injEq]
    constructor
    · rintro ⟨p, ⟨fd, hfd, hp, hname⟩, rfl, rfl⟩
      exact ⟨fd, hfd, hname, p.2, hp, rfl⟩
    · rintro ⟨fd, hfd, rfl, j', hj', rfl⟩
      exact ⟨(fd.name, j'), ⟨fd, hfd, hj', rfl⟩, rfl, rfl⟩
  have hvisit : R.visit [] l = .ok () := by
    apply visit_ok hn (by simp)
    rintro ⟨k, j⟩ hp fd hfind
    obtain ⟨fd', hfd', hname, hj⟩ := (hmem k j).mp hp
    obtain ⟨j', hj', rfl⟩ := Option.map_eq_some_iff.mp hj
    obtain rfl : fd = fd' := by
      refine List.inj_on_of_nodup_map hnames (List.mem_of_find?_eq_some hfind) hfd' ?_
      rw [hname]
      simpa using List.find?_some hfind
    exact fd.check_entry hf (hs fd hfd') hj'
  rw [hl, decode, hvisit]
  apply R.build_entries hf hs
  intro fd hfd
  cases hj : (fd.entry s).map f with
  | some j => exact lookup_eq_of_mem hn ((hmem _ _).mpr ⟨fd, hfd, rfl, hj⟩)
  | none =>
      rw [List.lookup_eq_none_iff]
      rintro ⟨k, j⟩ hp
      obtain ⟨fd', hfd', hname, hj'⟩ := (hmem k j).mp hp
      rw [bne_iff_ne]
      rintro rfl
      obtain rfl := List.inj_on_of_nodup_map hnames hfd' hfd hname
      rw [hj] at hj'
      cases hj'

/-- An object without any of the names is read as the empty one. -/
theorem decode_of_disjoint {l : List (String × Json)} (h : ∀ p ∈ l, p.1 ∉ R.names) :
    R.decode (.obj l) = R.build fun _ => none := by
  have hfind : ∀ p ∈ l, R.find p.1 = none := by
    intro p hp
    rw [find, List.find?_eq_none]
    intro fd hfd hname
    apply h p hp
    rw [← of_decide_eq_true hname]
    exact List.mem_map_of_mem hfd
  have hvisit : R.visit [] l = .ok () := by
    clear h
    induction l with
    | nil => rfl
    | cons p l ih =>
        obtain ⟨hp, hl⟩ := List.forall_mem_cons.mp hfind
        rw [visit, hp]
        exact ih hl
  rw [decode, hvisit]
  apply R.build_congr
  intro fd hfd
  rw [List.lookup_eq_none_iff]
  intro p hp
  rw [bne_iff_ne]
  intro hname
  exact h p hp (hname ▸ List.mem_map_of_mem hfd)

theorem decode_of_disjoint_names {τ β : Type} {S : Record τ β} (hnames : S.names.Nodup)
    (hdisjoint : ∀ k ∈ S.names, k ∉ R.names) {f : Json → Json} (hf : Rearranges f) (s : τ) :
    R.decode (f (.obj (S.members s))) = R.build fun _ => none := by
  obtain ⟨l, hl, hperm⟩ := hf.obj (S.members s)
  rw [hl]
  refine decode_of_disjoint fun p hp => hdisjoint p.1 ?_
  obtain ⟨q, hq, rfl⟩ := List.mem_map.mp
    ((hperm (hnames.sublist (sublist_names s))).mem_iff.mp hp)
  exact (sublist_names s).subset (List.mem_map.mpr ⟨q, hq, rfl⟩)

/-- The shape of a struct that is described field by field. -/
def shape (R : Record σ σ) (hvalue : ∀ s, R.value s = s) (hnames : R.names.Nodup) : Shape σ where
  Valid := R.Valid
  encode s := .obj (R.members s)
  decode := R.decode
  decode_rearranged hf s hs := by rw [R.decode_rearranged hnames hf hs, hvalue]
  encode_ne_null _ := by simp

section Valid

variable {β : Type} {s : σ} {name : String}

@[simp] theorem valid_nil (mk : α) : (nil mk : Record σ α).Valid s := by simp [Valid, nil]

theorem valid_of_fields {R : Record σ α} {R' : Record σ β} (fd : Field σ)
    (h : R'.fields = R.fields ++ [fd]) : R'.Valid s ↔ R.Valid s ∧ fd.Valid s := by
  simp [Valid, h, or_imp, forall_and]

@[simp] theorem valid_required {R : Record σ (α → β)} {get : σ → α} {c : Shape α} :
    (R.required name get c).Valid s ↔ R.Valid s ∧ c.Valid (get s) :=
  valid_of_fields (.required name get c) rfl

@[simp] theorem valid_optional {R : Record σ (Option α → β)} {get : σ → Option α} {c : Shape α} :
    (R.optional name get c).Valid s ↔ R.Valid s ∧ ∀ a, get s = some a → c.Valid a :=
  valid_of_fields (.optional name get c) rfl

@[simp] theorem valid_flag {R : Record σ (Bool → β)} {get : σ → Bool} :
    (R.flag name get).Valid s ↔ R.Valid s :=
  (valid_of_fields (.flag name get) rfl).trans (and_iff_left trivial)

end Valid

end Record

end Serde
