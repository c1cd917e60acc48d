import Unitpm.Lib.OsPath
import Unitpm.Lib.PathBeneath
import Unitpm.Sandbox

/-! # The Landlock ruleset

`internal/daemon/runtime/landlock`: the child restricts itself to the paths of its ruleset.  Which
rights the ruleset handles grows with the ABI of the kernel (`fs_mask`); which of them a path gets
is decided apart from that (`access_mask`).  The kernel is the parameter `LandlockHost`.

`access_mask` knows nothing of the rights `REFER` and `TRUNCATE`, which `fs_mask` adds for ABI 2 and
3: they are handled and no rule grants them.  So a path that may be written keeps what it was
permitted, and is granted all that is handled of the rights to write, only on ABI 1
(`writableTree_kept_iff`). -/

namespace Unitpm.Landlock

open Rust.Path Fs PathBeneath

/-! ### Rights -/

/-- A set of rights. -/
abbrev Access : Type := BitVec 64

def accessFsExecute : Access := 1 <<< 0

def accessFsWriteFile : Access := 1 <<< 1

def accessFsReadFile : Access := 1 <<< 2

def accessFsReadDir : Access := 1 <<< 3

def accessFsRemoveDir : Access := 1 <<< 4

def accessFsRemoveFile : Access := 1 <<< 5

def accessFsMakeChar : Access := 1 <<< 6

def accessFsMakeDir : Access := 1 <<< 7

def accessFsMakeReg : Access := 1 <<< 8

def accessFsMakeSock : Access := 1 <<< 9

def accessFsMakeFifo : Access := 1 <<< 10

def accessFsMakeBlock : Access := 1 <<< 11

def accessFsMakeSym : Access := 1 <<< 12

def accessFsRefer : Access := 1 <<< 13

def accessFsTruncate : Access := 1 <<< 14

/-- `fs_mask`. -/
def fsMask (abi : ℤ) : Access :=
  let mask := accessFsExecute ||| accessFsWriteFile ||| accessFsReadFile ||| accessFsReadDir |||
    accessFsRemoveDir ||| accessFsRemoveFile ||| accessFsMakeChar ||| accessFsMakeDir |||
    accessFsMakeReg ||| accessFsMakeSock ||| accessFsMakeFifo ||| accessFsMakeBlock |||
    accessFsMakeSym
  let mask := if abi ≥ 2 then mask ||| accessFsRefer else mask
  if abi ≥ 3 then mask ||| accessFsTruncate else mask

/-- `access_mask`. -/
def accessMask (a : PathAccess) (handledMask : Access) : Access :=
  let m : Access := 0
  let m := if a.read then m ||| (accessFsReadFile ||| accessFsReadDir) else m
  let m := if a.write then
      m ||| (accessFsWriteFile ||| accessFsRemoveDir ||| accessFsRemoveFile ||| accessFsMakeChar |||
        accessFsMakeDir ||| accessFsMakeReg ||| accessFsMakeSock ||| accessFsMakeFifo |||
        accessFsMakeBlock ||| accessFsMakeSym)
    else m
  let m := if a.execute then m ||| accessFsExecute else m
  m &&& handledMask

/-! ### The calls -/

inductive LandlockError where
  | unsupported
  | probe (errno : ℤ)
  | createRuleset (errno : ℤ)
  | noNewPrivs (errno : ℤ)
  | restrictSelf (errno : ℤ)
  | pathNotAbsolute
  | addRuleSyscall (errno : ℤ)
  | addRule (path : String) (source : LandlockError)
deriving DecidableEq

/-- `Display for LandlockError`. -/
def LandlockError.toText : LandlockError → String
  | unsupported => "landlock not supported by kernel"
  | probe e => "landlock_create_ruleset probe: " ++ toString e
  | createRuleset e => "landlock_create_ruleset: " ++ toString e
  | noNewPrivs e => "prctl(PR_SET_NO_NEW_PRIVS): " ++ toString e
  | restrictSelf e => "landlock_restrict_self: " ++ toString e
  | pathNotAbsolute => "path must be absolute"
  | addRuleSyscall e => "landlock_add_rule: " ++ toString e
  | addRule path source =>
      "landlock add rule for " ++ Rust.Str.debug path ++ ": " ++ source.toText

structure Ruleset where
  allow : List PathAccess := []

/-- The answers of the kernel.  `version` is the ABI or an errno, and `openPath` the place that a
descriptor of the path stands for. -/
structure LandlockHost where
  version : Except ℤ ℤ
  canonicalize : OsStr → Option OsStr
  openPath : OsStr → Option (List FileName)
  createErr : Option ℤ := none
  addRuleErr : List FileName → Access → Option ℤ := fun _ _ => none
  prctlErr : Option ℤ := none
  restrictErr : Option ℤ := none

/-- A ruleset in the kernel. -/
structure KernelRuleset where
  handledFs : Access
  rules : List (List FileName × Access) := []
deriving DecidableEq

def enosys : ℤ := 38

/-- `get_abi_version`. -/
def getAbiVersion (host : LandlockHost) : Except LandlockError ℤ :=
  match host.version with
  | .error errno => if errno = enosys then .error .unsupported else .error (.probe errno)
  | .ok abi => .ok abi

/-- The path of a rule with its links resolved, opened; `none` where `add_path_rule` skips it. -/
def LandlockHost.placeOf (host : LandlockHost) (path : String) : Option (List FileName) :=
  let p := OsStr.ofString path
  let resolved := (host.canonicalize p).getD p
  -- `CString::new` refuses a NUL
  if .char '\x00' ∈ resolved then none else host.openPath resolved

/-- `add_path_rule`. -/
def addPathRule (host : LandlockHost) (k : KernelRuleset) (access : PathAccess)
    (handledMask : Access) : Except LandlockError KernelRuleset :=
  if isAbsolute access.path.toList = false then .error .pathNotAbsolute
  else match host.placeOf access.path with
    | none => .ok k
    | some place =>
        let allowed := accessMask access handledMask
        if allowed = 0 then .ok k
        else match host.addRuleErr place allowed with
          | some e => .error (.addRuleSyscall e)
          | none => .ok { k with rules := k.rules ++ [(place, allowed)] }

/-- The loop over the ruleset. -/
def addRules (host : LandlockHost) (handledFs : Access) (k : KernelRuleset) :
    List PathAccess → Except LandlockError KernelRuleset
  | [] => .ok k
  | a :: allow =>
      match addPathRule host k a handledFs with
      | .error e => .error (.addRule a.path e)
      | .ok k => addRules host handledFs k allow

/-- `apply` on a kernel with the given ABI. -/
def install (host : LandlockHost) (ruleset : Ruleset) (abi : ℤ) :
    Except LandlockError KernelRuleset :=
  match host.createErr with
  | some e => .error (.createRuleset e)
  | none =>
      match addRules host (fsMask abi) { handledFs := fsMask abi } ruleset.allow with
      | .error e => .error e
      | .ok k =>
          match host.prctlErr with
          | some e => .error (.noNewPrivs e)
          | none =>
              match host.restrictErr with
              | some e => .error (.restrictSelf e)
              | none => .ok k

/-- `apply`: the ruleset that is in force then, none where the kernel has no Landlock. -/
def apply (host : LandlockHost) (ruleset : Ruleset) :
    Except LandlockError (Option KernelRuleset) :=
  match getAbiVersion host with
  | .ok abi => if abi ≥ 1 then (install host ruleset abi).map some else .ok none
  | .error .unsupported => .ok none
  | .error e => .error e

/-! ### What the kernel permits -/

/-- The rights in a mask, by their bits. -/
def rights (m : Access) : Set ℕ := {i | m.getLsbD i = true}

/-- A place lies beneath another. -/
def Beneath (place top : List FileName) : Prop := top <+: place

/-- The bit of `REFER`. -/
def refer : ℕ := 13

/-- The bit of `TRUNCATE`. -/
def truncate : ℕ := 14

/-- What a ruleset in force does.  To move a file to another directory is denied by every ruleset
that does not grant `REFER`, whether it handles the right or not. -/
def KernelRuleset.layer (k : KernelRuleset) : Layer (List FileName) ℕ where
  handled := insert refer (rights k.handledFs)
  rules := k.rules.map fun rule => (rule.1, rights rule.2)

/-- The rights to write. -/
def writeClass : Access :=
  accessFsWriteFile ||| accessFsRemoveDir ||| accessFsRemoveFile ||| accessFsMakeChar |||
    accessFsMakeDir ||| accessFsMakeReg ||| accessFsMakeSock ||| accessFsMakeFifo |||
    accessFsMakeBlock ||| accessFsMakeSym ||| accessFsRefer ||| accessFsTruncate

/-- The tree beneath `top` keeps under `k` what it is permitted under `k₁`, and every right to write
that `k` handles is granted there. -/
structure KeepsTree (k₁ k : KernelRuleset) (top : List FileName) : Prop where
  permitted : ∀ op : List (List FileName × ℕ), (∀ req ∈ op, Beneath req.1 top) →
    k₁.layer.Permits Beneath op → k.layer.Permits Beneath op
  granted : ∀ place, Beneath place top → ∀ r ∈ rights writeClass, r ∈ rights k.handledFs →
    Grants Beneath k.layer.rules place r

/-- What a ruleset allows, whatever is handled. -/
def policy (host : LandlockHost) (allow : List PathAccess) : List (List FileName × Set ℕ) :=
  allow.filterMap fun a =>
    (host.placeOf a.path).map fun place => (place, rights (accessMask a (BitVec.allOnes 64)))

/-! ### The masks -/

theorem mem_rights {m : Access} {r : ℕ} : r ∈ rights m ↔ m.getLsbD r = true := Iff.rfl

theorem mem_rights_and {m n : Access} {r : ℕ} :
    r ∈ rights (m &&& n) ↔ r ∈ rights m ∧ r ∈ rights n := by
  simp [mem_rights]

theorem accessMask_eq (a : PathAccess) (handledMask : Access) :
    accessMask a handledMask = accessMask a (BitVec.allOnes 64) &&& handledMask := by
  simp only [accessMask, BitVec.and_allOnes]

theorem fsMask_eq (abi : ℤ) : fsMask abi =
    BitVec.ofNat 64 (2 ^ (if abi < 2 then 13 else if abi < 3 then 14 else 15) - 1) := by
  unfold fsMask
  by_cases h2 : abi < 2
  · have h2' : ¬ abi ≥ 2 := by omega
    have h3' : ¬ abi ≥ 3 := by omega
    simp only [h2, h2', h3', if_true, if_false]
    decide
  · have h2' : abi ≥ 2 := by omega
    by_cases h3 : abi < 3
    · have h3' : ¬ abi ≥ 3 := by omega
      simp only [h2, h2', h3, h3', if_true, if_false]
      decide
    · have h3' : abi ≥ 3 := by omega
      simp only [h2, h2', h3, h3', if_true, if_false]
      decide

theorem mem_rights_fsMask {abi : ℤ} {r : ℕ} :
    r ∈ rights (fsMask abi) ↔ r < 13 ∨ (r = refer ∧ 2 ≤ abi) ∨ (r = truncate ∧ 3 ≤ abi) := by
  have hbit : ∀ n ≤ 64, (BitVec.ofNat 64 (2 ^ n - 1)).getLsbD r = true ↔ r < n := by
    intro n hn
    rw [BitVec.getLsbD_ofNat, Nat.testBit_two_pow_sub_one]
    simp
    omega
  unfold refer truncate
  rw [mem_rights, fsMask_eq, hbit _ (by split_ifs <;> omega)]
  split_ifs <;> omega

theorem refer_truncate_not_mem (a : PathAccess) {r : ℕ} (hr : r = refer ∨ r = truncate)
    (handledMask : Access) : r ∉ rights (accessMask a handledMask) := by
  have hbits : ∀ read write execute : Bool, ∀ r ∈ [refer, truncate],
      (accessMask ⟨"", read, write, execute⟩ (BitVec.allOnes 64)).getLsbD r = false := by decide
  have hr' : r ∈ [refer, truncate] := by simpa using hr
  have hnot := hbits a.read a.write a.execute r hr'
  rw [accessMask_eq, mem_rights_and, mem_rights]
  rintro ⟨h, -⟩
  exact absurd (h.symm.trans hnot) (by decide)

theorem mem_accessMask_of_write {a : PathAccess} (hwrite : a.write = true) {r : ℕ}
    (hr : r ∈ rights writeClass) (hlt : r < 13) :
    r ∈ rights (accessMask a (BitVec.allOnes 64)) := by
  have hbits : ∀ read execute : Bool, ∀ r < 13, writeClass.getLsbD r = true →
      (accessMask ⟨"", read, true, execute⟩ (BitVec.allOnes 64)).getLsbD r = true := by decide
  obtain ⟨path, read, write, execute⟩ := a
  obtain rfl : write = true := hwrite
  exact hbits read execute r hlt hr

/-! ### The ruleset in force -/

section Apply

variable {host : LandlockHost} {k k' : KernelRuleset} {a : PathAccess} {allow : List PathAccess}
  {handledFs : Access}

/-- One path of the ruleset. -/
theorem addPathRule_ok (place : List FileName) (r : ℕ)
    (h : addPathRule host k a handledFs = .ok k') :
    k'.handledFs = k.handledFs ∧ (Grants Beneath k'.layer.rules place r ↔
      Grants Beneath k.layer.rules place r ∨
        (Grants Beneath (policy host [a]) place r ∧ r ∈ rights handledFs)) := by
  unfold addPathRule at h
  split_ifs at h
  cases hplace : host.placeOf a.path with
  | none =>
      simp only [hplace] at h
      obtain rfl := Except.ok.inj h
      simp [policy, hplace, Grants]
  | some top =>
      simp only [hplace] at h
      have hgrants : Grants Beneath (policy host [a]) place r ∧ r ∈ rights handledFs ↔
          Beneath place top ∧ r ∈ rights (accessMask a handledFs) := by
        rw [accessMask_eq a handledFs, mem_rights_and]
        simp [policy, hplace, Grants, and_assoc]
      rw [hgrants]
      split_ifs at h with hzero
      · obtain rfl := Except.ok.inj h
        simp [hzero, mem_rights]
      · split at h
        · cases h
        · obtain rfl := Except.ok.inj h
          refine ⟨rfl, ?_⟩
          simp [KernelRuleset.layer, Grants, or_and_right, exists_or]

theorem policy_cons (host : LandlockHost) (a : PathAccess) (allow : List PathAccess)
    {place : List FileName} {r : ℕ} : Grants Beneath (policy host (a :: allow)) place r ↔
    Grants Beneath (policy host [a]) place r ∨ Grants Beneath (policy host allow) place r := by
  rw [← grants_append]
  simp [policy, ← List.filterMap_append]

/-- **The rules of a ruleset** grant what its policy allows and it handles. -/
theorem addRules_ok (place : List FileName) (r : ℕ)
    (h : addRules host handledFs k allow = .ok k') :
    k'.handledFs = k.handledFs ∧ (Grants Beneath k'.layer.rules place r ↔
      Grants Beneath k.layer.rules place r ∨
        (Grants Beneath (policy host allow) place r ∧ r ∈ rights handledFs)) := by
  induction allow generalizing k with
  | nil =>
      obtain rfl := Except.ok.inj h
      simp [policy, Grants]
  | cons a allow ih =>
      rw [addRules] at h
      split at h
      · cases h
      · rename_i k₁ hrule
        obtain ⟨hhandled, hgrants⟩ := addPathRule_ok place r hrule
        obtain ⟨hhandled', hgrants'⟩ := ih h
        refine ⟨hhandled'.trans hhandled, ?_⟩
        rw [hgrants', hgrants, policy_cons host a allow, or_and_right, or_assoc]

theorem getAbiVersion_ok {abi : ℤ} (h : getAbiVersion host = .ok abi) : host.version = .ok abi := by
  unfold getAbiVersion at h
  split at h
  · split_ifs at h
  · rename_i abi' hversion
    rw [hversion, Except.ok.inj h]

theorem install_ok {ruleset : Ruleset} {abi : ℤ} (h : install host ruleset abi = .ok k) :
    addRules host (fsMask abi) { handledFs := fsMask abi } ruleset.allow = .ok k := by
  unfold install at h
  split at h
  · cases h
  · split at h
    · cases h
    · rename_i k' hrules
      split at h
      · cases h
      · split at h
        · cases h
        · rw [hrules, Except.ok.inj h]

end Apply

/-- The ruleset handles what the kernel knows, and grants what the policy allows of it. -/
structure InForce (host : LandlockHost) (allow : List PathAccess) (abi : ℤ) (k : KernelRuleset) :
    Prop where
  handled : k.handledFs = fsMask abi
  grants : ∀ place r, Grants Beneath k.layer.rules place r ↔
    Grants Beneath (policy host allow) place r ∧ r ∈ rights (fsMask abi)

/-- `host` on a kernel with another ABI. -/
def LandlockHost.withAbi (host : LandlockHost) (abi : ℤ) : LandlockHost :=
  { host with version := .ok abi }

section InForce

variable {host : LandlockHost} {ruleset : Ruleset} {allow : List PathAccess} {abi : ℤ}
  {k₁ k : KernelRuleset} {top place : List FileName} {r : ℕ}

/-- **What `apply` puts in force.** -/
theorem inForce_of_apply (h : apply (host.withAbi abi) ruleset = .ok (some k)) :
    InForce host ruleset.allow abi k := by
  unfold apply at h
  split at h
  · rename_i abi' hversion
    obtain rfl := Except.ok.inj (getAbiVersion_ok hversion)
    split_ifs at h
    · cases hinstall : install (host.withAbi abi) ruleset abi with
      | error e =>
          rw [hinstall] at h
          cases h
      | ok k' =>
          rw [hinstall] at h
          obtain rfl := Option.some.inj (Except.ok.inj h)
          have hrules := install_ok hinstall
          refine ⟨(addRules_ok [] 0 hrules).1, fun place r => ?_⟩
          rw [(addRules_ok place r hrules).2]
          simp only [KernelRuleset.layer, Grants, List.map_nil, List.not_mem_nil, false_and,
            exists_false, false_or]
          rfl
    · cases h
  · cases h
  · cases h

theorem not_grants_policy (hr : r = refer ∨ r = truncate) :
    ¬ Grants Beneath (policy host allow) place r := by
  rintro ⟨rule, hrule, -, hmem⟩
  obtain ⟨a, -, ha⟩ := List.mem_filterMap.mp hrule
  obtain ⟨top, -, rfl⟩ := Option.map_eq_some_iff.mp ha
  exact refer_truncate_not_mem a hr _ hmem

theorem permits_iff (hk : InForce host allow abi k) {op : List (List FileName × ℕ)} :
    k.layer.Permits Beneath op ↔
      (restrict (policy host allow) (insert refer (rights (fsMask abi)))).Permits Beneath op := by
  rw [permits_restrict_iff, ← hk.handled]
  refine forall₂_congr fun req _ => forall_congr' fun hasked => ?_
  rw [hk.grants, ← hk.handled]
  refine and_iff_left_of_imp fun hgrants => ?_
  obtain hrefer | hhandled := hasked
  · exact absurd hgrants (not_grants_policy (.inl hrefer))
  · exact hhandled

/-- Only `TRUNCATE`, which comes with ABI 3, takes anything away. -/
theorem permitted_iff (hk₁ : InForce host allow 1 k₁) (hk : InForce host allow abi k) :
    (∀ op : List (List FileName × ℕ), (∀ req ∈ op, Beneath req.1 top) →
      k₁.layer.Permits Beneath op → k.layer.Permits Beneath op) ↔ abi < 3 := by
  simp only [permits_iff hk₁, permits_iff hk]
  rw [permits_grow_iff]
  constructor
  · intro h
    by_contra hlt
    refine not_grants_policy (.inr rfl) (h top (List.prefix_refl top) truncate ?_ ?_)
    · exact .inr (mem_rights_fsMask.mpr (.inr (.inr ⟨rfl, by omega⟩)))
    · rintro (hrefer | hhandled)
      · exact absurd hrefer (by decide)
      · have := mem_rights_fsMask.mp hhandled
        unfold refer truncate at this
        omega
  · intro hlt place _ r hasked hnew
    refine absurd ?_ hnew
    obtain hrefer | hhandled := hasked
    · exact .inl hrefer
    · obtain hold | ⟨hrefer, -⟩ | ⟨-, hge⟩ := mem_rights_fsMask.mp hhandled
      · exact .inr (mem_rights_fsMask.mpr (.inl hold))
      · exact .inl hrefer
      · omega

/-- A path that may be written is granted every right to write that is handled, until `REFER` comes
with ABI 2. -/
theorem granted_iff {a : PathAccess} (hk : InForce host allow abi k) (ha : a ∈ allow)
    (hwrite : a.write = true) (htop : host.placeOf a.path = some top) :
    (∀ place, Beneath place top → ∀ r ∈ rights writeClass, r ∈ rights k.handledFs →
      Grants Beneath k.layer.rules place r) ↔ abi < 2 := by
  rw [hk.handled]
  constructor
  · intro h
    by_contra hlt
    have hhandled : refer ∈ rights (fsMask abi) :=
      mem_rights_fsMask.mpr (.inr (.inl ⟨rfl, by omega⟩))
    have hgrants := h top (List.prefix_refl top) refer (mem_rights.mpr (by decide)) hhandled
    exact not_grants_policy (.inl rfl) ((hk.grants _ _).mp hgrants).1
  · intro hlt place hplace r hr hhandled
    refine (hk.grants place r).mpr ⟨?_, hhandled⟩
    have hold : r < 13 := by
      have := mem_rights_fsMask.mp hhandled
      omega
    refine ⟨(top, _), List.mem_filterMap.mpr ⟨a, ha, by rw [htop]; rfl⟩, hplace, ?_⟩
    exact mem_accessMask_of_write hwrite hr hold

end InForce

/-- **Paths that may be written, as the ABI grows.** Beneath such a path everything stays permitted
that is permitted on ABI 1, and every right to write that is handled is granted, only on ABI 1. -/
theorem writableTree_kept_iff (host : LandlockHost) (ruleset : Ruleset) (a : PathAccess)
    (top : List FileName) (abi : ℤ) (k₁ k : KernelRuleset) (ha : a ∈ ruleset.allow)
    (hwrite : a.write = true) (htop : host.placeOf a.path = some top)
    (h₁ : apply (host.withAbi 1) ruleset = .ok (some k₁))
    (h : apply (host.withAbi abi) ruleset = .ok (some k)) :
    KeepsTree k₁ k top ↔ abi < 2 := by
  have hk := inForce_of_apply h
  constructor
  · exact fun hkeeps => (granted_iff hk ha hwrite htop).mp hkeeps.granted
  · intro hlt
    exact ⟨(permitted_iff (inForce_of_apply h₁) hk).mpr (by omega),
      (granted_iff hk ha hwrite htop).mpr hlt⟩

/-! A directory that may be read and written. -/

def workDir : FileName := .ofString "w"

def workRuleset : Ruleset := { allow := [⟨"/w", true, true, false⟩] }

def workHost : LandlockHost where
  version := .ok 1
  canonicalize := some
  openPath p := if p = OsStr.ofString "/w" then some [workDir] else none

/-- What is in force for the directory. -/
def workKernel (abi : ℤ) : KernelRuleset :=
  ⟨fsMask abi, [([workDir], accessMask ⟨"/w", true, true, false⟩ (fsMask abi))]⟩

theorem writableTree_kept_abi1 :
    apply (workHost.withAbi 1) workRuleset = .ok (some (workKernel 1)) ∧
      KeepsTree (workKernel 1) (workKernel 1) [workDir] := by
  have happly : apply (workHost.withAbi 1) workRuleset = .ok (some (workKernel 1)) := by
    decide +kernel
  exact ⟨happly, (writableTree_kept_iff workHost workRuleset ⟨"/w", true, true, false⟩ [workDir] 1
    (workKernel 1) (workKernel 1) (by simp [workRuleset]) rfl (by decide +kernel) happly
    happly).mpr (by decide)⟩

/-- To cut a file of the directory is permitted on ABI 1 and denied on ABI 3. -/
theorem truncate_denied :
    apply (workHost.withAbi 1) workRuleset = .ok (some (workKernel 1)) ∧
      apply (workHost.withAbi 3) workRuleset = .ok (some (workKernel 3)) ∧
      (workKernel 1).layer.Permits Beneath [([workDir, workDir], truncate)] ∧
      ¬ (workKernel 3).layer.Permits Beneath [([workDir, workDir], truncate)] ∧
      ¬ KeepsTree (workKernel 1) (workKernel 3) [workDir] := by
  have h₁ : apply (workHost.withAbi 1) workRuleset = .ok (some (workKernel 1)) := by
    decide +kernel
  have h₃ : apply (workHost.withAbi 3) workRuleset = .ok (some (workKernel 3)) := by
    decide +kernel
  have hpermitted : (workKernel 1).layer.Permits Beneath [([workDir, workDir], truncate)] := by
    intro req hreq hasked
    obtain rfl := List.mem_singleton.mp hreq
    obtain hrefer | hhandled := hasked
    · exact absurd hrefer (by decide)
    · exact absurd (mem_rights.mp hhandled) (by decide)
  have hdenied : ¬ (workKernel 3).layer.Permits Beneath [([workDir, workDir], truncate)] := by
    intro h
    have hgrants := h ([workDir, workDir], truncate) (by simp) (.inr (mem_rights.mpr (by decide)))
    exact not_grants_policy (.inr rfl) (((inForce_of_apply h₃).grants _ _).mp hgrants).1
  refine ⟨h₁, h₃, hpermitted, hdenied, fun hkeeps => hdenied (hkeeps.permitted _ ?_ hpermitted)⟩
  intro req hreq
  obtain rfl := List.mem_singleton.mp hreq
  exact List.prefix_append [workDir] [workDir]

end Unitpm.Landlock
