import Mathlib.Data.List.Infix
import Mathlib.Tactic.Common

/-! # Unix paths

`std::path::Path` on Unix, over the characters of the path: `components` drops empty and `.`
segments (a leading `.` of a relative path is kept as `curDir`), `fileName` is the last
component when it is a normal one, and `join` replaces the base by an absolute argument.

A path is text or an `OsStr`: a file name may hold bytes that are not UTF-8, which
`to_string_lossy` replaces (`OsStr.toStringLossy`).

`Lex` is the lexical normal form of a path, in which every `..` that has a name before it is
cancelled with that name.  Normalising a joined path is joining normal forms (`lexical_join`). -/

namespace Rust.Path

/-- What is special about two of the characters of a path. -/
class PathChar (α : Type) where
  sep : α
  dot : α

instance : PathChar Char := ⟨'/', '.'⟩

/-- A piece of an `OsStr`: a character, or a run of bytes that is not UTF-8. -/
inductive OsChar where
  | char (c : Char)
  | raw (bytes : List UInt8)
deriving DecidableEq

instance : PathChar OsChar := ⟨.char '/', .char '.'⟩

export PathChar (sep dot)

inductive Component (α : Type) where
  | rootDir
  | curDir
  | parentDir
  | normal (s : List α)
deriving DecidableEq

variable {α : Type} [DecidableEq α] [PathChar α]

/-- The component a path segment stands for after the first one. -/
def segment (s : List α) : Option (Component α) :=
  if s = [] ∨ s = [dot] then none
  else if s = [dot, dot] then some .parentDir
  else some (.normal s)

/-- `Path::is_absolute`. -/
def isAbsolute (p : List α) : Bool := p.head? == some sep

/-- `Path::components`. -/
def components (p : List α) : List (Component α) :=
  let segs := p.splitOn sep
  let lead :=
    if isAbsolute p then [.rootDir] else if segs.head? = some [dot] then [.curDir] else []
  lead ++ segs.filterMap segment

/-- `Path::file_name`. -/
def fileName (p : List α) : Option (List α) :=
  match (components p).getLast? with
  | some (.normal s) => some s
  | _ => none

/-- `Path::extension`: what follows the last dot of the file name, if anything precedes it. -/
def extension (p : List α) : Option (List α) :=
  (fileName p).bind fun name =>
    let after := (name.reverse.takeWhile fun c => c ≠ dot).reverse
    if after.length + 1 < name.length then some after else none

/-- `Path::join`. -/
def join (a b : List α) : List α :=
  if isAbsolute b then b
  else if a = [] ∨ a.getLast? = some sep then a ++ b
  else a ++ sep :: b

/-- `Component::as_os_str`. -/
def Component.text : Component α → List α
  | .rootDir => [sep]
  | .curDir => [dot]
  | .parentDir => [dot, dot]
  | .normal s => s

/-- `PathBuf::extend`. -/
def extend (p : List α) (cs : List (Component α)) : List α :=
  cs.foldl (fun p c => join p c.text) p

/-- `std::path::absolute` of a path that is not empty, in the working directory `cwd`.  Nothing is
looked up, so a `..` stays; two leading slashes stay as well. -/
def absolute (cwd p : List α) : List α :=
  let cs := components p
  let q :=
    if ¬ isAbsolute p then extend cwd (if cs.head? = some .curDir then cs.tail else cs)
    else if p.take 2 = [sep, sep] ∧ p[2]? ≠ some sep then extend [sep, sep] cs.tail
    else extend [] cs
  if p.getLast? = some sep then join q [] else q

example : absolute "/srv".toList "./api/../bin/".toList = "/srv/api/../bin/".toList := by decide

example : components "./a//b/../c".toList =
    [.curDir, .normal ['a'], .normal ['b'], .parentDir, .normal ['c']] := by decide

/-! ### Paths that are not text -/

abbrev OsStr : Type := List OsChar

/-- `OsStr::new`. -/
def OsStr.ofString (s : String) : OsStr := s.toList.map .char

/-- `to_string_lossy`: what is not UTF-8 becomes a replacement character. -/
def OsStr.toStringLossy (p : OsStr) : String :=
  String.ofList (p.map fun
    | .char c => c
    | .raw _ => '\uFFFD')

@[simp] theorem OsStr.toStringLossy_ofString (s : String) : (ofString s).toStringLossy = s := by
  simp [ofString, toStringLossy, Function.comp_def]

/-! ### Lexical normal form -/

/-- A path without `.` and without a `..` that has a name before it: `/` or not, so many `..`,
then names. -/
structure Lex (α : Type) where
  abs : Bool
  ups : ℕ
  names : List (List α)
deriving DecidableEq

namespace Lex

def empty : Lex α := ⟨false, 0, []⟩

/-- The normal form with one more component; `/..` is `/`. -/
def push (l : Lex α) : Component α → Lex α
  | .rootDir => ⟨true, 0, []⟩
  | .curDir => l
  | .parentDir =>
      if l.names ≠ [] then { l with names := l.names.dropLast }
      else if l.abs then l
      else { l with ups := l.ups + 1 }
  | .normal s => { l with names := l.names ++ [s] }

def toComponents (l : Lex α) : List (Component α) :=
  (if l.abs then [.rootDir] else []) ++ List.replicate l.ups .parentDir ++ l.names.map .normal

/-- The normal form of `a/b` for a relative `b`: each leading `..` of `b` takes back a name of
`a`. -/
def join (a b : Lex α) : Lex α where
  abs := a.abs
  ups := a.ups + if a.abs then 0 else b.ups - a.names.length
  names := a.names.take (a.names.length - b.ups) ++ b.names

/-- `p` is `base` or below it. -/
def Inside (p base : Lex α) : Prop :=
  p.abs = base.abs ∧ p.ups = base.ups ∧ base.names <+: p.names

instance (p base : Lex α) : Decidable (p.Inside base) :=
  inferInstanceAs (Decidable (_ ∧ _ ∧ _))

/-- The names of `a` that the leading `..`s of `b` take back are the first that `b` names. -/
def Returns (b a : Lex α) : Prop :=
  (b.ups ≤ a.names.length ∨ a.abs = true) ∧ a.names.drop (a.names.length - b.ups) <+: b.names

instance (b a : Lex α) : Decidable (b.Returns a) := inferInstanceAs (Decidable (_ ∧ _))

end Lex

/-- Lexical normalisation of `.` and `..`. -/
def lexical (p : List α) : Lex α := (components p).foldl Lex.push .empty

/-- The normal form is `..` or begins with `../`. -/
def Climbs (p : List α) : Prop := (lexical p).toComponents.head? = some .parentDir

instance (p : List α) : Decidable (Climbs p) := inferInstanceAs (Decidable (_ = _))

namespace Lex

omit [DecidableEq α] [PathChar α]

@[simp] theorem join_empty (a : Lex α) : a.join .empty = a := by
  obtain ⟨abs, ups, names⟩ := a
  simp [join, empty]

/-- A component that follows in `b` follows in `a/b`. -/
theorem join_push (a b : Lex α) (hb : b.abs = false) {c : Component α} (hc : c ≠ .rootDir) :
    (a.join b).push c = a.join (b.push c) := by
  cases c with
  | rootDir => exact absurd rfl hc
  | curDir => rfl
  | normal s => simp [push, join]
  | parentDir =>
      by_cases hn : b.names = []
      · by_cases hk : b.ups < a.names.length
        · have hne : a.names.take (a.names.length - b.ups) ≠ [] := by
            intro h
            have := congrArg List.length h
            simp only [List.length_take, List.length_nil] at this
            omega
          have e : (a.names.take (a.names.length - b.ups)).dropLast =
              a.names.take (a.names.length - (b.ups + 1)) := by
            rw [List.dropLast_eq_take, List.take_take, List.length_take]
            congr 1
            omega
          have e' : b.ups - a.names.length = b.ups + 1 - a.names.length := by omega
          simp [push, join, hn, hb, hne, e, e']
        · have e : a.names.length - b.ups = 0 := by omega
          have e' : a.names.length - (b.ups + 1) = 0 := by omega
          have e'' : b.ups + 1 - a.names.length = b.ups - a.names.length + 1 := by omega
          cases ha : a.abs <;> simp [push, join, hn, hb, ha, e, e', e'', Nat.add_assoc]
      · simp [push, join, hn, List.dropLast_append_of_ne_nil hn]

theorem push_abs (a : Lex α) {c : Component α} (hc : c ≠ .rootDir) : (a.push c).abs = a.abs := by
  unfold push
  split
  · exact absurd rfl hc
  · rfl
  · split
    · rfl
    · split <;> rfl
  · rfl

theorem foldl_push_join (a b : Lex α) (hb : b.abs = false) {cs : List (Component α)}
    (hc : .rootDir ∉ cs) : cs.foldl push (a.join b) = a.join (cs.foldl push b) := by
  induction cs generalizing b with
  | nil => rfl
  | cons c cs ih =>
      have h1 : c ≠ .rootDir := fun h => hc (by simp [h])
      have h2 : .rootDir ∉ cs := fun h => hc (by simp [h])
      rw [List.foldl_cons, List.foldl_cons, join_push a b hb h1,
        ih _ (by rw [push_abs b h1, hb]) h2]

/-- **Where `a/b` leads**: it stays in `a` iff `b` comes back to `a`. -/
theorem inside_join_iff (a b : Lex α) : (a.join b).Inside a ↔ b.Returns a := by
  have hpre : a.names <+: (a.join b).names ↔ a.names.drop (a.names.length - b.ups) <+: b.names := by
    conv_lhs => rw [← List.take_append_drop (a.names.length - b.ups) a.names]
    exact List.prefix_append_right_inj _
  have hups : (a.join b).ups = a.ups ↔ b.ups ≤ a.names.length ∨ a.abs = true := by
    cases ha : a.abs
    · simp [join, ha]
      omega
    · simp [join, ha]
  simp only [Inside, Returns, hpre, hups]
  exact ⟨fun h => h.2, fun h => ⟨rfl, h⟩⟩

theorem push_ups_le (a : Lex α) {c : Component α} (hc : c ≠ .rootDir) :
    a.ups ≤ (a.push c).ups := by
  unfold push
  split
  · exact absurd rfl hc
  · exact le_rfl
  · split
    · exact le_rfl
    · split
      · exact le_rfl
      · exact Nat.le_succ _
  · exact le_rfl

theorem foldl_push_ups_le (a : Lex α) {cs : List (Component α)} (hc : .rootDir ∉ cs) :
    a.ups ≤ (cs.foldl push a).ups := by
  induction cs generalizing a with
  | nil => exact le_rfl
  | cons c cs ih =>
      rw [List.mem_cons, not_or] at hc
      exact (push_ups_le a (Ne.symm hc.1)).trans (ih _ hc.2)

end Lex

/-! ### The normal form of a joined path -/

theorem segment_ne_rootDir (s : List α) : segment s ≠ some .rootDir := by
  unfold segment
  split
  · simp
  · split <;> simp

theorem rootDir_not_mem_segments (l : List (List α)) : .rootDir ∉ l.filterMap segment := by
  intro h
  obtain ⟨s, -, hs⟩ := List.mem_filterMap.mp h
  exact segment_ne_rootDir s hs

theorem rootDir_not_mem_components {p : List α} (hp : isAbsolute p = false) :
    .rootDir ∉ components p := by
  simp only [components, hp, Bool.false_eq_true, if_false, List.mem_append, not_or]
  refine ⟨?_, rootDir_not_mem_segments _⟩
  split <;> simp

theorem lexical_eq (p : List α) :
    lexical p = ((p.splitOn sep).filterMap segment).foldl Lex.push ⟨isAbsolute p, 0, []⟩ := by
  unfold lexical components
  rw [List.foldl_append]
  congr 1
  split
  · rename_i h
    simp [Lex.push, h]
  · rename_i h
    simp only [Bool.not_eq_true] at h
    split <;> simp [Lex.push, Lex.empty, h]

theorem lexical_abs (p : List α) : (lexical p).abs = isAbsolute p := by
  have h : ∀ (cs : List (Component α)) (l : Lex α), .rootDir ∉ cs →
      (cs.foldl Lex.push l).abs = l.abs := by
    intro cs
    induction cs with
    | nil => exact fun _ _ => rfl
    | cons c cs ih =>
        intro l hc
        rw [List.foldl_cons, ih _ fun h => hc (by simp [h]),
          Lex.push_abs l fun h => hc (by simp [h])]
  rw [lexical_eq]
  exact h _ _ (rootDir_not_mem_segments _)

theorem isAbsolute_join {a b : List α} (hb : isAbsolute b = false) :
    isAbsolute (join a b) = isAbsolute a := by
  unfold join
  rw [if_neg (by simp [hb])]
  split
  · cases a with
    | nil => exact hb
    | cons x a => rfl
  · rename_i h
    cases a with
    | nil => exact absurd (Or.inl rfl) h
    | cons x a => rfl

theorem segments_join {a b : List α} (hb : isAbsolute b = false) :
    ((join a b).splitOn sep).filterMap segment =
      (a.splitOn sep).filterMap segment ++ (b.splitOn sep).filterMap segment := by
  have hnil : segment ([] : List α) = none := by simp [segment]
  unfold join
  rw [if_neg (by simp [hb])]
  split
  · rename_i h
    rcases h with rfl | h
    · simp [hnil]
    · obtain ⟨a, rfl⟩ := List.getLast?_eq_some_iff.mp h
      rw [List.append_assoc, List.singleton_append, List.splitOn_append_cons_self,
        List.splitOn_append_cons_self, List.filterMap_append, List.filterMap_append]
      simp [hnil]
  · rw [List.splitOn_append_cons_self, List.filterMap_append]

/-- **Normalising a joined path** is joining the normal forms. -/
theorem lexical_join {a b : List α} (hb : isAbsolute b = false) :
    lexical (join a b) = (lexical a).join (lexical b) := by
  rw [lexical_eq (join a b), segments_join hb, isAbsolute_join hb, List.foldl_append,
    ← lexical_eq a, lexical_eq b, hb, ← Lex.foldl_push_join _ _ rfl (rootDir_not_mem_segments _)]
  congr 1
  exact ((lexical a).join_empty).symm

theorem climbs_of_head {p : List α} (hp : (components p).head? = some .parentDir) : Climbs p := by
  obtain ⟨cs, hcs⟩ := List.head?_eq_some_iff.mp hp
  have habs : isAbsolute p = false := by
    by_contra h
    rw [Bool.not_eq_false] at h
    simp [components, h] at hcs
  have hroot : .rootDir ∉ cs := by
    have h := rootDir_not_mem_components habs
    rw [hcs] at h
    exact fun hm => h (List.mem_cons_of_mem _ hm)
  have hups : 1 ≤ (lexical p).ups := by
    rw [lexical, hcs, List.foldl_cons]
    exact Lex.foldl_push_ups_le ⟨false, 1, []⟩ hroot
  obtain ⟨n, hn⟩ : ∃ n, (lexical p).ups = n + 1 := ⟨_, (Nat.sub_add_cancel hups).symm⟩
  simp [Climbs, Lex.toComponents, lexical_abs, habs, hn, List.replicate_succ]

end Rust.Path
