import Unitpm.Validate

/-! # The credential file of a dynamic-mode process

`plan_isolation` writes the environment of a dynamic-mode process as its entries joined with
newlines, without any quoting; `_exec-env` reads the file back with the `.env` reader, which
knows comments, trimming and two styles of quotes.

The two agree exactly on the vectors described by `Writable`: keys the reader takes as they
stand, last values it hands back unchanged, and no assignment on the continuation line of a
value with a newline (`finalStray`) that says anything else. -/

namespace Unitpm

open Rust.Str Overlay Dotenv

/-! ### Lines of a joined text -/

/-- The assignments made by the pieces between line feeds. -/
def assigns (l : List Char) : List (String × String) := (l.splitOn '\n').filterMap lineAssign

theorem lineAssign_nil : lineAssign [] = none := by simp [lineAssign]

theorem lineAssign_stripCr (l : List Char) : lineAssign (stripCr l) = lineAssign l := by
  simp only [lineAssign, trim_stripCr]

/-- Line endings do not matter to the reader. -/
theorem lines_filterMap_lineAssign (l : List Char) :
    (lines l).filterMap lineAssign = assigns l := by
  have hlast : ∀ o : Option (List Char),
      (o.toList.filter fun s => !s.isEmpty).filterMap lineAssign =
        o.toList.filterMap lineAssign := by
    intro o
    rcases o with _ | _ | ⟨c, s⟩
    · rfl
    · simp [lineAssign_nil]
    · rfl
  have hne := List.splitOn_ne_nil '\n' l
  unfold lines assigns
  generalize l.splitOn '\n' = segs at hne
  simp only [List.filterMap_append, List.filterMap_map, hlast]
  rw [show lineAssign ∘ stripCr = lineAssign from funext lineAssign_stripCr,
    ← List.filterMap_append]
  congr 1
  conv_rhs => rw [← List.dropLast_append_getLast hne]
  rw [List.getLast?_eq_some_getLast hne]
  rfl

theorem parseStr_lookup (text k : String) :
    (parseStr text).lookup k = lastVal (assigns text.toList) k := by
  rw [parseStr, lines_filterMap_lineAssign, lookup_foldl_insert, AList.lookup_empty, Option.or_none]

theorem assigns_joinWith (ls : List (List Char)) :
    assigns (joinWith '\n' ls) = ls.flatMap assigns := by
  induction ls with
  | nil => simp [assigns, joinWith, lineAssign_nil]
  | cons l ls ih =>
      cases ls with
      | nil => simp [joinWith]
      | cons m ls =>
          have e : joinWith '\n' (l :: m :: ls) = l ++ '\n' :: joinWith '\n' (m :: ls) := by
            simp [joinWith, List.intercalate]
          rw [e, assigns, List.splitOn_append_cons_self, List.filterMap_append, List.flatMap_cons,
            ← ih]
          rfl

/-! ### One entry -/

/-- The text up to the first line feed. -/
def firstLine (v : List Char) : List Char :=
  match splitOnce '\n' v with
  | none => v
  | some (a, _) => a

/-- The assignments the reader finds on the later lines of a value. -/
def strays (v : List Char) : List (String × String) :=
  match splitOnce '\n' v with
  | none => []
  | some (_, w) => assigns w

/-- The keys the reader takes as they stand. -/
def KeyOk (k : String) : Prop :=
  k ≠ "" ∧ Trimmed k.toList ∧ '\n' ∉ k.toList ∧ k.toList.head? ≠ some '#'

instance (k : String) : Decidable (KeyOk k) := inferInstanceAs (Decidable (_ ∧ _))

/-- What comes back of a value. -/
def readBack (v : String) : String := String.ofList (parseValue (trim (firstLine v.toList)))

theorem lineAssign_keyOk {k : String} (hk : KeyOk k) (he : '=' ∉ k.toList) (v : List Char) :
    lineAssign (k.toList ++ '=' :: v) = some (k, String.ofList (parseValue (trim v))) := by
  obtain ⟨hne, htr, -, hh⟩ := hk
  obtain ⟨c, l, hl⟩ := List.exists_cons_of_ne_nil
    (show k.toList ≠ [] from fun e => hne (by simpa using e))
  have htrim : trim (k.toList ++ '=' :: v) = k.toList ++ '=' :: trimEnd v := by
    rw [trim, trimStart_eq_self, trimEnd_append_cons _ _ (by decide)]
    intro d hd
    apply htr.1 d
    rw [hl] at hd ⊢
    exact hd
  have hcond : ¬ (k.toList ++ '=' :: trimEnd v = [] ∨
      (k.toList ++ '=' :: trimEnd v).head? = some '#') := by
    rw [hl] at hh ⊢
    simpa using hh
  have hkne : k.toList ≠ [] := by rw [hl]; exact List.cons_ne_nil _ _
  simp only [lineAssign, htrim, if_neg hcond, parseLine, splitOnce_append _ he, trim_eq_self htr,
    if_neg hkne, trim_trimEnd, Option.map_some, String.ofList_toList]

/-- An entry assigns its key first; whatever follows is read off its later lines. -/
theorem assigns_envEntry {k : String} (hk : KeyOk k) (he : '=' ∉ k.toList) (v : String) :
    assigns (envEntry (k, v)).toList = (k, readBack v) :: strays v.toList := by
  have e : (envEntry (k, v)).toList = k.toList ++ '=' :: v.toList := by
    simp [envEntry, String.toList_append]
  rw [e]
  unfold assigns readBack firstLine strays
  cases hs : splitOnce '\n' v.toList with
  | none =>
      have hn : '\n' ∉ k.toList ++ '=' :: v.toList := by
        have := splitOnce_eq_none.mp hs
        have := hk.2.2.1
        simp_all
      rw [List.splitOn_eq_singleton hn]
      simp [lineAssign_keyOk hk he]
  | some p =>
      obtain ⟨a, w⟩ := p
      obtain ⟨hv, ha⟩ := splitOnce_spec hs
      have hn : '\n' ∉ k.toList ++ '=' :: a := by
        have := hk.2.2.1
        simp_all
      have e' : k.toList ++ '=' :: v.toList = (k.toList ++ '=' :: a) ++ '\n' :: w := by simp [hv]
      rw [e', List.splitOn_append_cons_self_of_not_mem hn]
      simp [lineAssign_keyOk hk he, assigns]

/-! ### What the reader can produce -/

theorem parseValue_subset (v : List Char) : parseValue v ⊆ v := by
  cases v with
  | nil => simp [parseValue]
  | cons c rest =>
      simp only [parseValue]
      split
      · rename_i hc
        rw [parseDoubleQuoted]
        split
        · rename_i m hm
          exact fun d hd =>
            List.mem_cons_of_mem _ (cutAt_subset hm ((unescapeQuotes_sublist m).subset hd))
        · rw [hc]
          exact List.Subset.refl _
      · split
        · rename_i hc
          rw [parseSingleQuoted]
          split
          · rename_i m hm
            exact fun d hd => List.mem_cons_of_mem _ (cutAt_subset hm hd)
          · rw [hc]
            exact List.Subset.refl _
        · rw [parseUnquoted]
          split
          · rename_i m hm
            exact fun d hd => List.cons_subset_cons _ (cutAt_subset hm) (mem_of_mem_trim hd)
          · exact fun d hd => mem_of_mem_trim hd

theorem head?_trim_of_prefix {k l : List Char} (hl : Trimmed l) (hk : k <+: l)
    (hne : trim k ≠ []) : (trim k).head? = l.head? := by
  obtain ⟨t, rfl⟩ := hk
  cases k with
  | nil => exact absurd rfl hne
  | cons c k =>
      have hc : isWhitespace c = false := hl.1 c rfl
      rw [trim, trimStart_eq_self (by simpa using hc)] at hne ⊢
      obtain ⟨u, hu⟩ : trimEnd (c :: k) <+: c :: k := List.rdropWhile_prefix _ _
      cases he : trimEnd (c :: k) with
      | nil => exact absurd he hne
      | cons d m =>
          rw [he] at hu
          obtain rfl : d = c := (List.cons.inj hu).1
          rfl

/-- A line can only assign a key that would be written as it stands. -/
theorem keyOk_of_lineAssign {l : List Char} {k x : String} (hn : '\n' ∉ l)
    (h : lineAssign l = some (k, x)) : KeyOk k := by
  unfold lineAssign at h
  simp only at h
  split at h
  · cases h
  · rename_i hc
    rw [not_or] at hc
    obtain ⟨⟨key, value⟩, hp, he⟩ := Option.map_eq_some_iff.mp h
    obtain ⟨rfl, rfl⟩ := Prod.mk.inj he
    unfold parseLine at hp
    split at hp
    · cases hp
    · rename_i keyRaw valueRaw hs
      simp only at hp
      split at hp
      · cases hp
      · rename_i hk
        obtain ⟨rfl, rfl⟩ := Prod.mk.inj (Option.some.inj hp)
        obtain ⟨hl, -⟩ := splitOnce_spec hs
        have hpre : keyRaw <+: trim l := ⟨_, hl.symm⟩
        refine ⟨fun e => hk (by simpa using e), ?_, ?_, ?_⟩
        · rw [String.toList_ofList]
          exact trimmed_trim _
        · rw [String.toList_ofList]
          exact fun hm => hn (mem_of_mem_trim (hpre.subset (mem_of_mem_trim hm)))
        · rw [String.toList_ofList, head?_trim_of_prefix (trimmed_trim l) hpre hk]
          exact hc.2

theorem keyOk_of_mem_assigns {l : List Char} {k x : String} (h : (k, x) ∈ assigns l) : KeyOk k := by
  obtain ⟨s, hs, ha⟩ := List.mem_filterMap.mp h
  exact keyOk_of_lineAssign (not_mem_of_mem_splitOn hs) ha

theorem not_mem_firstLine (v : List Char) : '\n' ∉ firstLine v := by
  unfold firstLine
  split
  · exact splitOnce_eq_none.mp ‹_›
  · exact (splitOnce_spec ‹_›).2

theorem readBack_eq_self_iff (v : String) :
    readBack v = v ↔ '\n' ∉ v.toList ∧ Survives v.toList := by
  have key : readBack v = v ↔ parseValue (trim (firstLine v.toList)) = v.toList := by
    rw [readBack, ← String.toList_inj, String.toList_ofList]
  rw [key]
  by_cases hn : '\n' ∈ v.toList
  · refine ⟨fun h => ?_, fun h => absurd hn h.1⟩
    rw [← h] at hn
    exact absurd (mem_of_mem_trim (parseValue_subset _ hn)) (not_mem_firstLine _)
  · have hf : firstLine v.toList = v.toList := by rw [firstLine, splitOnce_eq_none.mpr hn]
    rw [hf, parseValue_trim_eq_self_iff]
    simp [hn]

/-! ### The whole vector -/

/-- The pairs of an env vector. -/
def envPairs (env : List String) : List (String × String) := env.filterMap splitEntry

/-- The last assignment to `k` on a continuation line that no later entry for `k` replaces. -/
def finalStray : List (String × String) → String → Option String
  | [], _ => none
  | p :: l, k =>
      if ∃ q ∈ l, q.1 = k then finalStray l k
      else (finalStray l k).or (lastVal (strays p.2.toList) k)

/-- The env vectors that the credential file carries over unchanged. -/
structure Writable (env : List String) : Prop where
  keys : ∀ p ∈ envPairs env, KeyOk p.1
  values : ∀ k v, lastVal (envPairs env) k = some v → finalStray (envPairs env) k = none →
    '\n' ∉ v.toList ∧ Survives v.toList
  noStray : ∀ k x, finalStray (envPairs env) k = some x → lastVal (envPairs env) k = some x

theorem lastVal_lines {l : List (String × String)} (k : String) :
    lastVal (l.flatMap fun p => (p.1, readBack p.2) :: strays p.2.toList) k =
      (finalStray l k).or ((lastVal l k).map readBack) := by
  induction l with
  | nil => simp [finalStray]
  | cons p l ih =>
      rw [List.flatMap_cons, lastVal_append, ih, lastVal_cons, lastVal_cons, finalStray]
      by_cases hk : ∃ q ∈ l, q.1 = k
      · -- a later entry for `k` replaces all that this one says
        rw [if_pos hk]
        have hne : lastVal l k ≠ none := fun hn => by
          obtain ⟨q, hq, e⟩ := hk
          exact lastVal_eq_none_iff.mp hn q hq e
        obtain ⟨v, hv⟩ := Option.ne_none_iff_exists'.mp hne
        rw [hv]
        cases finalStray l k <;> rfl
      · have hn : lastVal l k = none :=
          lastVal_eq_none_iff.mpr fun q hq e => hk ⟨q, hq, e⟩
        rw [if_neg hk, hn, Option.map_none, Option.or_none, Option.none_or, Option.or_assoc]
        congr 2
        split <;> rfl

/-- Every entry `prepare_env` makes has a `=`. -/
theorem envEntry_of_mem_prepareEnv {h : Host} {s : AppSpec} {env : List String}
    (hp : prepareEnv h s = .ok env) : ∀ e ∈ env, ∃ p, e = envEntry p := by
  unfold prepareEnv at hp
  cases hf : fileEnv h s with
  | error e => rw [hf] at hp; cases hp
  | ok file =>
      rw [hf] at hp
      obtain rfl := Except.ok.inj hp
      have hinh : ∀ e ∈ inheritedEnv h (isDynamic s), ∃ p, e = envEntry p := by
        intro e he
        rcases mem_inheritedEnv he with ⟨p, -, -, rfl⟩ | ⟨home, -, rfl⟩
        · exact ⟨p, rfl⟩
        · exact ⟨_, rfl⟩
      have hfile : ∀ e ∈ file, ∃ p, e = envEntry p := by
        intro e he
        unfold fileEnv at hf
        split at hf
        · obtain rfl := Except.ok.inj hf
          cases he
        · split at hf
          · cases hf
          · obtain rfl := Except.ok.inj hf
            obtain ⟨p, -, rfl⟩ := List.mem_map.mp he
            exact ⟨p, rfl⟩
      have hspec : ∀ e ∈ specEnv s, ∃ p, e = envEntry p := by
        intro e he
        unfold specEnv at he
        split at he
        · cases he
        · obtain ⟨p, -, rfl⟩ := List.mem_map.mp he
          exact ⟨p, rfl⟩
      intro e he
      rcases List.mem_append.mp he with he | he
      · rcases List.mem_append.mp he with he | he
        · exact hinh e he
        · exact hfile e he
      · exact hspec e he

theorem splitEntry_eq_some {e k v : String} (h : splitEntry e = some (k, v)) :
    e = envEntry (k, v) ∧ '=' ∉ k.toList := by
  obtain ⟨⟨a, b⟩, hs, he⟩ := Option.map_eq_some_iff.mp h
  obtain ⟨rfl, rfl⟩ := Prod.mk.inj he
  obtain ⟨hl, hn⟩ := splitOnce_spec hs
  refine ⟨String.toList_injective ?_, by rwa [String.toList_ofList]⟩
  simp [envEntry, String.toList_append, hl]

theorem splitEntry_envEntry_isSome (p : String × String) : (splitEntry (envEntry p)).isSome := by
  rw [splitEntry, splitOnceAt, Option.isSome_map, Option.isSome_iff_ne_none, ne_eq,
    splitOnce_eq_none, not_not]
  simp [envEntry, String.toList_append]

/-- With keys that are taken as they stand, the file says what `lastVal_lines` reads. -/
theorem assigns_credentialBody {env : List String} (henv : ∀ e ∈ env, ∃ p, e = envEntry p)
    (hk : ∀ p ∈ envPairs env, KeyOk p.1) :
    assigns (credentialBody env).toList =
      (envPairs env).flatMap fun p => (p.1, readBack p.2) :: strays p.2.toList := by
  rw [credentialBody, String.toList_ofList, assigns_joinWith]
  induction env with
  | nil => rfl
  | cons e env ih =>
      obtain ⟨q, hq⟩ := henv e (by simp)
      obtain ⟨⟨k, v⟩, hs⟩ := Option.isSome_iff_exists.mp (splitEntry_envEntry_isSome q)
      rw [← hq] at hs
      have hcons : envPairs (e :: env) = (k, v) :: envPairs env := by
        rw [envPairs, List.filterMap_cons, hs]
        rfl
      obtain ⟨he, hn⟩ := splitEntry_eq_some hs
      rw [hcons] at hk ⊢
      rw [List.map_cons, List.flatMap_cons, List.flatMap_cons,
        ih (fun e he => henv e (by simp [he])) (fun p hp => hk p (by simp [hp])), he,
        assigns_envEntry (hk (k, v) (by simp)) hn]

/-- A vector is read back as it was written iff it is writable. -/
theorem readsBack_iff_writable {env : List String} (henv : ∀ e ∈ env, ∃ p, e = envEntry p) :
    (∀ k, (parseStr (credentialBody env)).lookup k = lastVal (envPairs env) k) ↔ Writable env := by
  simp only [parseStr_lookup]
  constructor
  · intro h
    have hk : ∀ p ∈ envPairs env, KeyOk p.1 := by
      intro p hp
      cases hv : lastVal (envPairs env) p.1 with
      | none => exact absurd rfl (lastVal_eq_none_iff.mp hv p hp)
      | some v => exact keyOk_of_mem_assigns (mem_of_lastVal ((h p.1).trans hv))
    simp only [assigns_credentialBody henv hk, lastVal_lines] at h
    refine ⟨hk, fun k v hv hs => ?_, fun k x hx => ?_⟩
    · have := h k
      rw [hv, hs] at this
      exact (readBack_eq_self_iff v).mp (by simpa using this)
    · have := h k
      rw [hx] at this
      exact this.symm
  · intro h k
    rw [assigns_credentialBody henv h.keys, lastVal_lines]
    cases hs : finalStray (envPairs env) k with
    | some x => exact (h.noStray k x hs).symm
    | none =>
        cases hv : lastVal (envPairs env) k with
        | none => rfl
        | some v =>
            rw [Option.none_or, Option.map_some,
              (readBack_eq_self_iff v).mpr (h.values k v hv hs)]

theorem body_of_mem_planIsolation {h : Host} {s : AppSpec} {infoId infoName : String}
    {env : List String} {path body : String}
    (hw : (path, body) ∈ (planIsolation h s infoId infoName env).1) :
    body = credentialBody env := by
  unfold planIsolation at hw
  split_ifs at hw
  · split at hw <;> cases hw
  · split at hw
    · cases hw
    · simp only at hw
      split at hw
      · cases hw
      · have hone : (path, body) ∈ [(credsEnvPath infoId, credentialBody env)] := by
          split at hw
          · exact hw
          · split at hw
            · exact hw
            · exact hw
        exact (Prod.mk.inj (List.mem_singleton.mp hone)).2
  · cases hw

/-- **Credential round trip**: `_exec-env` reads from the file `plan_isolation` writes exactly
the last value of every key iff the vector is writable. -/
theorem credential_readsBack_iff (h : Host) (s : AppSpec) (infoId infoName : String)
    (env : List String) (path body : String) (hp : prepareEnv h s = .ok env)
    (hw : (path, body) ∈ (planIsolation h s infoId infoName env).1) :
    (∀ k, (parseStr body).lookup k = lastVal (envPairs env) k) ↔ Writable env := by
  obtain rfl := body_of_mem_planIsolation hw
  exact readsBack_iff_writable (envEntry_of_mem_prepareEnv hp)

/-- The plain command in dynamic mode with one variable. -/
def greetingSpec (v : String) : AppSpec :=
  { plainSpec demoId with
    runAs := some { mode := "dynamic" }
    env := some ⟨[("GREETING", v)], List.pairwise_singleton _ _⟩ }

theorem credential_readsBack_iff_greeting :
    (∀ k, (parseStr "PATH=/usr/bin\nGREETING=hi there").lookup k =
        lastVal (envPairs ["PATH=/usr/bin", "GREETING=hi there"]) k) ↔
      Writable ["PATH=/usr/bin", "GREETING=hi there"] :=
  credential_readsBack_iff (plainHost true cleanEnv) (greetingSpec "hi there") demoId "api"
    ["PATH=/usr/bin", "GREETING=hi there"] (credsEnvPath demoId)
    "PATH=/usr/bin\nGREETING=hi there" (by decide +kernel) (by decide +kernel)

/-- An accepted spec whose value loses everything from the `#` on. -/
theorem credential_drops_comment :
    Accepted true (greetingSpec "hi # there") ∧
      ∃ env body, prepareEnv (plainHost true cleanEnv) (greetingSpec "hi # there") = .ok env ∧
        (planIsolation (plainHost true cleanEnv) (greetingSpec "hi # there") demoId "api" env).1 =
          [(credsEnvPath demoId, body)] ∧
        lastVal (envPairs env) "GREETING" = some "hi # there" ∧
        (parseStr body).lookup "GREETING" = some "hi" :=
  ⟨by decide +kernel, ["PATH=/usr/bin", "GREETING=hi # there"],
    "PATH=/usr/bin\nGREETING=hi # there", by decide +kernel, by decide +kernel, by decide +kernel,
    by decide +kernel⟩

end Unitpm
