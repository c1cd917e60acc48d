import Unitpm.ChildEnv
import Unitpm.Credential
import Unitpm.Validate

/-! # The environment a child is given

`prepare_env` writes every variable as `KEY=VALUE`, those of the daemon before those of the env file
and these before those of `spec.env`, and `prepare_cmd` splits each entry at its first `=`.  A key
with a `=` in it does not come back as it was, and `validate_spec` lets such keys of `spec.env`
through; the keys of an env file have none (`eq_notMem_of_fileMap`).

So the layers reach the child with the precedence they are meant to have if and only if the keys of
`spec.env` have no `=` in them; a key that begins with its only `=` makes an exception if the daemon
has a variable of that name and value (`delivered_iff`). -/

namespace Unitpm

open Rust.Str Overlay Dotenv

/-! ### What is to be delivered -/

/-- The pairs of `spec.env`. -/
def specPairs (s : AppSpec) : List (String × String) :=
  match s.env with
  | none => []
  | some m => m.entries

/-- What the env file of a spec is parsed to. -/
def fileMap (h : Host) (s : AppSpec) : AList fun _ : String => String :=
  match nonEmpty s.envFile with
  | none => ∅
  | some path =>
      match h.readToString path with
      | .error _ => ∅
      | .ok text => parseStr text

/-- `prepare_env` forwards the variable of the daemon: in system mode only from the whitelist. -/
def Forwarded (h : Host) (k : String) : Prop :=
  h.systemMode = true → whitelisted k = true ∨ k = "HOME"

/-- The child has the variables of `spec.env`, then those of the env file, then those of the
daemon. -/
structure Delivered (h : Host) (s : AppSpec) (child : String → Option String) : Prop where
  spec : ∀ p ∈ specPairs s, child p.1 = some p.2
  file : ∀ k v, k ∉ (specPairs s).map Prod.fst → (fileMap h s).lookup k = some v →
    child k = some v
  daemon : ∀ k v, k ∉ (specPairs s).map Prod.fst → (fileMap h s).lookup k = none →
    Forwarded h k → h.env.var k = some v → child k = some v

/-- The entries of the keys with a `=` in them. -/
def oddPairs (s : AppSpec) : List (String × String) :=
  (specPairs s).filter fun p => decide ('=' ∈ p.1.toList)

/-- The keys of `spec.env` have no `=`, but for a first character of a name that the daemon has with
the same value; the empty key, if there is one too, makes the same entry as the last of these. -/
structure KeysSplit (h : Host) (s : AppSpec) : Prop where
  eq : ∀ p ∈ specPairs s, '=' ∈ p.1.toList →
    '=' ∉ p.1.toList.tail ∧ h.env.var p.1 = some p.2
  empty : ∀ w, ("", w) ∈ specPairs s → ∀ p, (oddPairs s).getLast? = some p →
    envEntry ("", w) = envEntry p

/-! ### Entries that are split again -/

theorem eq_notMem_of_splitEntry {e k v : String} (h : splitEntry e = some (k, v)) :
    '=' ∉ k.toList := by
  unfold splitEntry splitOnceAt at h
  obtain ⟨⟨a, b⟩, hab, he⟩ := Option.map_eq_some_iff.mp h
  obtain ⟨rfl, rfl⟩ := Prod.mk.inj he
  rw [String.toList_ofList]
  exact (splitOnce_spec hab).2

/-- An entry whose key begins with a `=` sets the empty name. -/
theorem splitEntry_of_odd {p : String × String} (hodd : '=' ∈ p.1.toList)
    (htail : '=' ∉ p.1.toList.tail) :
    ∃ w, splitEntry (envEntry p) = some ("", w) ∧ envEntry ("", w) = envEntry p := by
  obtain ⟨c, l, hl⟩ := List.exists_cons_of_ne_nil (List.ne_nil_of_mem hodd)
  rw [hl, List.tail_cons] at htail
  rw [hl, List.mem_cons] at hodd
  obtain rfl : '=' = c := hodd.resolve_right htail
  have he : (envEntry p).toList = '=' :: (l ++ '=' :: p.2.toList) := by
    simp [envEntry, String.toList_append, hl]
  refine ⟨String.ofList (l ++ '=' :: p.2.toList), ?_, ?_⟩
  · rw [splitEntry, splitOnceAt, he]
    simp [splitOnce]
  · rw [← String.toList_inj, he]
    simp [envEntry, String.toList_append]

theorem lastVal_splitEntries_of_eq {es : List String} {k : String} (hk : '=' ∈ k.toList) :
    lastVal (es.filterMap splitEntry) k = none := by
  apply lastVal_eq_none_iff.mpr
  rintro ⟨a, w⟩ hp rfl
  obtain ⟨e, -, he⟩ := List.mem_filterMap.mp hp
  exact eq_notMem_of_splitEntry he hk

theorem filterMap_splitEntry {l : List (String × String)} (h : ∀ p ∈ l, '=' ∉ p.1.toList) :
    (l.map envEntry).filterMap splitEntry = l := by
  induction l with
  | nil => rfl
  | cons p l ih =>
      obtain ⟨hp, hl⟩ := List.forall_mem_cons.mp h
      rw [List.map_cons, List.filterMap_cons_some (splitEntry_envEntry p.2 hp), ih hl]

/-- Keys that begin with a `=` stand in the way of no name but the empty one. -/
theorem lastVal_splitEntries {l : List (String × String)}
    (h : ∀ p ∈ l, '=' ∈ p.1.toList → '=' ∉ p.1.toList.tail) {k : String} (hne : k ≠ "")
    (hk : '=' ∉ k.toList) : lastVal ((l.map envEntry).filterMap splitEntry) k = lastVal l k := by
  induction l with
  | nil => rfl
  | cons p l ih =>
      obtain ⟨hp, hl⟩ := List.forall_mem_cons.mp h
      rw [List.map_cons]
      by_cases hodd : '=' ∈ p.1.toList
      · obtain ⟨w, hw, -⟩ := splitEntry_of_odd hodd (hp hodd)
        have hpk : p.1 ≠ k := fun e => hk (e ▸ hodd)
        rw [List.filterMap_cons_some hw, lastVal_cons, lastVal_cons, ih hl, if_neg hne.symm,
          if_neg hpk]
      · rw [List.filterMap_cons_some (splitEntry_envEntry p.2 hodd), lastVal_cons, lastVal_cons,
          ih hl]

/-- The last key that begins with a `=` sets the empty name. -/
theorem lastVal_splitEntries_empty {l : List (String × String)}
    (hsorted : (l.map Prod.fst).Pairwise (· < ·))
    (h : ∀ p ∈ l, '=' ∈ p.1.toList → '=' ∉ p.1.toList.tail) {p : String × String}
    (hlast : (l.filter fun p => decide ('=' ∈ p.1.toList)).getLast? = some p) :
    ∃ w, lastVal ((l.map envEntry).filterMap splitEntry) "" = some w ∧
      envEntry ("", w) = envEntry p := by
  induction l with
  | nil => cases hlast
  | cons q l ih =>
      obtain ⟨hq, hl⟩ := List.forall_mem_cons.mp h
      rw [List.map_cons, List.pairwise_cons] at hsorted
      rw [List.map_cons]
      by_cases hrest : (l.filter fun p => decide ('=' ∈ p.1.toList)) = []
      · -- `q` is the last such key, and the empty key is not behind it
        have hnone : ∀ r ∈ l, '=' ∉ r.1.toList := by
          intro r hr hodd
          have hmem : r ∈ l.filter fun p => decide ('=' ∈ p.1.toList) :=
            List.mem_filter.mpr ⟨hr, by simpa using hodd⟩
          rw [hrest] at hmem
          exact List.not_mem_nil hmem
        have hodd : '=' ∈ q.1.toList := by
          by_contra hno
          rw [List.filter_cons_of_neg (by simpa using hno), hrest] at hlast
          cases hlast
        rw [List.filter_cons_of_pos (by simpa using hodd), hrest] at hlast
        obtain rfl : q = p := Option.some.inj hlast
        obtain ⟨w, hw, hentry⟩ := splitEntry_of_odd hodd (hq hodd)
        refine ⟨w, ?_, hentry⟩
        rw [List.filterMap_cons_some hw, lastVal_cons, if_pos rfl, filterMap_splitEntry hnone]
        have hempty : lastVal l "" = none := by
          apply lastVal_eq_none_iff.mpr
          intro r hr he
          have hlt := hsorted.1 r.1 (List.mem_map_of_mem hr)
          rw [he, String.lt_iff_toList_lt] at hlt
          exact List.not_lt_nil _ hlt
        rw [hempty, Option.none_or]
      · have hlast' : (l.filter fun p => decide ('=' ∈ p.1.toList)).getLast? = some p := by
          rw [List.filter_cons] at hlast
          split_ifs at hlast
          · rwa [List.getLast?_cons_of_ne_nil hrest] at hlast
          · exact hlast
        obtain ⟨w, hw, hentry⟩ := ih hsorted.2 hl hlast'
        refine ⟨w, ?_, hentry⟩
        cases hs : splitEntry (envEntry q) with
        | none => rw [List.filterMap_cons_none hs, hw]
        | some r => rw [List.filterMap_cons_some hs, lastVal_cons, hw, Option.some_or]

/-! ### The layers -/

theorem specEnv_eq (s : AppSpec) : specEnv s = (specPairs s).map envEntry := by
  unfold specEnv specPairs
  cases s.env <;> rfl

theorem sorted_specPairs (s : AppSpec) : ((specPairs s).map Prod.fst).Pairwise (· < ·) := by
  unfold specPairs
  cases s.env with
  | none => exact List.Pairwise.nil
  | some m => exact m.sorted

theorem nodup_specPairs (s : AppSpec) : ((specPairs s).map Prod.fst).Nodup :=
  (sorted_specPairs s).imp fun h => ne_of_lt h

theorem eq_notMem_of_lineAssign {l : List Char} {k v : String} (h : lineAssign l = some (k, v)) :
    '=' ∉ k.toList := by
  unfold lineAssign at h
  simp only at h
  split_ifs at h
  obtain ⟨⟨a, b⟩, hp, he⟩ := Option.map_eq_some_iff.mp h
  obtain ⟨rfl, rfl⟩ := Prod.mk.inj he
  unfold parseLine at hp
  split at hp
  · cases hp
  · rename_i keyRaw valueRaw hs
    simp only at hp
    split_ifs at hp
    obtain ⟨rfl, rfl⟩ := Prod.mk.inj (Option.some.inj hp)
    rw [String.toList_ofList]
    exact fun hm => (splitOnce_spec hs).2 (mem_of_mem_trim hm)

theorem eq_notMem_of_fileMap {h : Host} {s : AppSpec} {k v : String}
    (hk : (fileMap h s).lookup k = some v) : k ≠ "" ∧ '=' ∉ k.toList := by
  unfold fileMap at hk
  split at hk
  · simp at hk
  · split at hk
    · simp at hk
    · rw [parseStr_lookup] at hk
      have hm := mem_of_lastVal hk
      obtain ⟨l, -, hl⟩ := List.mem_filterMap.mp hm
      exact ⟨(keyOk_of_mem_assigns hm).1, eq_notMem_of_lineAssign hl⟩

/-- The env file reaches the child as it is parsed. -/
theorem lastVal_fileEnv {h : Host} {s : AppSpec} {file : List String} (hf : fileEnv h s = .ok file)
    (k : String) : lastVal (file.filterMap splitEntry) k = (fileMap h s).lookup k := by
  have hfile : file = (h.iter (fileMap h s)).map envEntry := by
    unfold fileEnv at hf
    unfold fileMap
    cases hpath : nonEmpty s.envFile with
    | none =>
        rw [hpath] at hf
        have hnone : (h.hashOrder (∅ : AList fun _ : String => String).keys) = [] :=
          List.perm_nil.mp (h.hashOrder_perm [])
        simp only [Host.iter, hnone]
        exact (Except.ok.inj hf).symm
    | some path =>
        rw [hpath] at hf
        simp only at hf ⊢
        cases htext : h.readToString path with
        | error e =>
            rw [htext] at hf
            cases hf
        | ok text =>
            rw [htext] at hf
            exact (Except.ok.inj hf).symm
  have hkeys : ∀ p ∈ h.iter (fileMap h s), '=' ∉ p.1.toList := by
    rintro ⟨a, v⟩ hp
    exact (eq_notMem_of_fileMap ((h.mem_iter _).mp hp)).2
  rw [hfile, filterMap_splitEntry hkeys]
  apply Option.ext
  intro v
  rw [lastVal_eq_some_iff (h.nodup_keys_iter _), h.mem_iter]

theorem childEnv_of_lastVal {h : Host} {s : AppSpec} {infoId infoName : String} {c : Command}
    (hc : prepareCmd h s infoId infoName = .ok c) {k v : String}
    (hk : lastVal ((specEnv s).filterMap splitEntry) k = some v) :
    c.childEnv h.env k = some v := by
  obtain ⟨bin, args, cmd, file, iso, -, hw, hf, hi, rfl⟩ := prepareCmd_ok_iff.mp hc
  obtain ⟨he, hcl⟩ := buildCommand_envs bin args s.exec.shell
  obtain ⟨d, rfl⟩ := checkCwd_ok hw
  obtain ⟨he', hcl'⟩ := isolate_envs hi he hcl
  simp only [Command.childEnv, applyEnv, he', List.nil_append, overlay, List.filterMap_append]
  rw [lastVal_append, hk]
  rfl

theorem childEnv_of_eq {h : Host} {s : AppSpec} {infoId infoName : String} {c : Command}
    (hc : prepareCmd h s infoId infoName = .ok c) {k : String} (hk : '=' ∈ k.toList) :
    c.childEnv h.env k = h.env.var k := by
  have hne : k ≠ "" := by
    rintro rfl
    exact List.not_mem_nil hk
  obtain ⟨file, -, he⟩ := prepareCmd_childEnv hc
  rw [he k (.inr hne), overlay, userPairs, lastVal_splitEntries_of_eq hk, Option.none_or]

theorem childEnv_of_name {h : Host} {s : AppSpec} {infoId infoName : String} {c : Command}
    (hc : prepareCmd h s infoId infoName = .ok c)
    (hodd : ∀ p ∈ specPairs s, '=' ∈ p.1.toList → '=' ∉ p.1.toList.tail) {k : String}
    (hne : k ≠ "") (hk : '=' ∉ k.toList) :
    c.childEnv h.env k =
      ((lastVal (specPairs s) k).or ((fileMap h s).lookup k)).or (h.env.var k) := by
  obtain ⟨file, hf, he⟩ := prepareCmd_childEnv hc
  rw [he k (.inr hne), overlay, userPairs, List.filterMap_append, lastVal_append, specEnv_eq,
    lastVal_splitEntries hodd hne hk, lastVal_fileEnv hf]

theorem lastVal_specPairs_of_notMem {s : AppSpec} {k : String}
    (hk : k ∉ (specPairs s).map Prod.fst) : lastVal (specPairs s) k = none :=
  lastVal_eq_none_iff.mpr fun _ hp he => hk (he ▸ List.mem_map_of_mem hp)

theorem name_of_var {e : DaemonEnv} {k v : String} (hk : e.var k = some v) :
    k ≠ "" ∧ '=' ∉ k.toList.tail := e.names (k, v) (mem_of_lastVal hk)

/-- The empty key keeps its value where the odd keys write the same entry. -/
theorem lastVal_empty_of_keysSplit {h : Host} {s : AppSpec} (hsplit : KeysSplit h s) {v : String}
    (hp : ("", v) ∈ specPairs s) :
    lastVal ((specEnv s).filterMap splitEntry) "" = some v := by
  rw [specEnv_eq]
  cases hlast : (oddPairs s).getLast? with
  | none =>
      have hnone : ∀ p ∈ specPairs s, '=' ∉ p.1.toList := by
        intro p hp he
        have hmem : p ∈ oddPairs s := List.mem_filter.mpr ⟨hp, by simpa using he⟩
        rw [List.getLast?_eq_none_iff.mp hlast] at hmem
        exact List.not_mem_nil hmem
      rw [filterMap_splitEntry hnone]
      exact (lastVal_eq_some_iff (nodup_specPairs s)).mpr hp
  | some p =>
      obtain ⟨w, hw, hentry⟩ := lastVal_splitEntries_empty (sorted_specPairs s)
        (fun p hp he => (hsplit.eq p hp he).1) hlast
      have hsame : envEntry ("", v) = envEntry ("", w) :=
        (hsplit.empty v hp p hlast).trans hentry.symm
      have hvw : v = w := by simpa [envEntry] using hsame
      rw [hw, hvw]

/-- **The layers of the environment.**  The child has every variable of `spec.env`, every other one
of the env file and every remaining one that is forwarded if and only if the keys of `spec.env` are
split as they were joined. -/
theorem delivered_iff {h : Host} {s : AppSpec} {infoId infoName : String} {c : Command}
    (hc : prepareCmd h s infoId infoName = .ok c) :
    Delivered h s (c.childEnv h.env) ↔ KeysSplit h s := by
  constructor
  · intro hd
    have heq : ∀ p ∈ specPairs s, '=' ∈ p.1.toList →
        '=' ∉ p.1.toList.tail ∧ h.env.var p.1 = some p.2 := by
      intro p hp hodd
      have hvar : h.env.var p.1 = some p.2 := by
        rw [← childEnv_of_eq hc hodd]
        exact hd.spec p hp
      exact ⟨(name_of_var hvar).2, hvar⟩
    refine ⟨heq, fun w hw p hp => ?_⟩
    obtain ⟨v, hv, hentry⟩ := lastVal_splitEntries_empty (sorted_specPairs s)
      (fun p hp hodd => (heq p hp hodd).1) hp
    rw [← specEnv_eq] at hv
    have hempty := hd.spec ("", w) hw
    rw [childEnv_of_lastVal hc hv] at hempty
    obtain rfl : v = w := Option.some.inj hempty
    exact hentry
  · intro hsplit
    have hodd : ∀ p ∈ specPairs s, '=' ∈ p.1.toList → '=' ∉ p.1.toList.tail :=
      fun p hp he => (hsplit.eq p hp he).1
    refine ⟨?_, ?_, ?_⟩
    · rintro ⟨k, v⟩ hp
      by_cases hk : '=' ∈ k.toList
      · rw [childEnv_of_eq hc hk]
        exact (hsplit.eq (k, v) hp hk).2
      by_cases hne : k = ""
      · subst hne
        exact childEnv_of_lastVal hc (lastVal_empty_of_keysSplit hsplit hp)
      · rw [childEnv_of_name hc hodd hne hk,
          (lastVal_eq_some_iff (nodup_specPairs s)).mpr hp]
        rfl
    · intro k v hspec hfile
      obtain ⟨hne, hk⟩ := eq_notMem_of_fileMap hfile
      rw [childEnv_of_name hc hodd hne hk, lastVal_specPairs_of_notMem hspec, hfile]
      rfl
    · intro k v hspec hfile _ hvar
      by_cases hk : '=' ∈ k.toList
      · rw [childEnv_of_eq hc hk, hvar]
      · rw [childEnv_of_name hc hodd (name_of_var hvar).1 hk, lastVal_specPairs_of_notMem hspec,
          hfile, hvar]
        rfl

/-- A spec with one variable. -/
def oneVarSpec (k v : String) : AppSpec :=
  { plainSpec demoId with env := some ⟨[(k, v)], List.pairwise_singleton _ _⟩ }

/-- The command with the variables that the daemon sets for it. -/
def sleepWith (k v : String) : Command where
  program := "sleep"
  args := ["30"]
  envs := [("PATH", "/usr/bin"), (k, v)]
  setpgid := true

/-- A variable `A=B` with the value `c` is accepted, and becomes a variable `A`. -/
theorem oddKey_not_delivered :
    ¬ ∀ (h : Host) (s : AppSpec) (infoId infoName : String) (c : Command),
      validateSpec s = .ok () → s.runAsMode = "self" →
      prepareCmd h s infoId infoName = .ok c → Delivered h s (c.childEnv h.env) := by
  intro hall
  have hc : prepareCmd (plainHost false cleanEnv) (oneVarSpec "A=B" "c") demoId "api" =
      .ok (sleepWith "A" "B=c") := by decide +kernel
  have hd := hall _ _ _ _ _ (by decide +kernel) (by decide) hc
  have hkey := hd.spec ("A=B", "c") List.mem_cons_self
  rw [childEnv_of_eq hc (by decide)] at hkey
  exact absurd hkey (by decide)

/-- A variable `PORT` is delivered. -/
theorem port_delivered :
    prepareCmd (plainHost false cleanEnv) (oneVarSpec "PORT" "80") demoId "api" =
        .ok (sleepWith "PORT" "80") ∧
      Delivered (plainHost false cleanEnv) (oneVarSpec "PORT" "80")
        ((sleepWith "PORT" "80").childEnv cleanEnv) := by
  have hc : prepareCmd (plainHost false cleanEnv) (oneVarSpec "PORT" "80") demoId "api" =
      .ok (sleepWith "PORT" "80") := by decide +kernel
  refine ⟨hc, (delivered_iff hc).mpr ⟨?_, ?_⟩⟩
  · intro p hp hodd
    obtain rfl := List.mem_singleton.mp hp
    exact absurd hodd (by decide)
  · intro w hw
    exact absurd (List.mem_singleton.mp hw) (by simp)

end Unitpm
