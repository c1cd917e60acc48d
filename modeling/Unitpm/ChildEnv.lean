import Unitpm.Spawn

/-! # What a child sees of the daemon's environment

`prepare_env` computes a whitelist in system mode, but `prepare_cmd` applies it with
`Command::env` only and never calls `env_clear`.  The child therefore gets the daemon's whole
environment under the pairs of the env file and of `spec.env` (`prepareCmd_childEnv`): the
whitelist adds nothing that is not inherited anyway.

Two daemon environments that agree on `HOME` and on the whitelist give the same child
environment exactly when they also agree on the variables that are none of these
(`Stray`). -/

namespace Unitpm

open Rust.Str Overlay

/-! ### Names -/

theorem startsWith_append (p s : String) : startsWith p (p ++ s) = true := by
  simp [startsWith, String.toList_append]

theorem startsWith_iff {p s : String} : startsWith p s = true ↔ ∃ t, s = p ++ t := by
  constructor
  · intro h
    obtain ⟨t, ht⟩ := List.isPrefixOf_iff_prefix.mp h
    refine ⟨String.ofList t, ?_⟩
    apply String.toList_injective
    simp [String.toList_append, ht]
  · rintro ⟨t, rfl⟩
    exact startsWith_append p t

/-- A whitelisted name of an environment has no `=` at all. -/
theorem not_mem_of_whitelisted {k : String} (hw : whitelisted k = true)
    (ht : '=' ∉ k.toList.tail) : '=' ∉ k.toList := by
  intro hm
  cases hk : k.toList with
  | nil => rw [hk] at hm; cases hm
  | cons c l =>
      rw [hk] at hm ht
      have hc : c = '=' := by
        rcases List.mem_cons.mp hm with h | h
        · exact h.symm
        · exact absurd h ht
      have hsplit := hw
      simp only [whitelisted, Bool.and_eq_true, Bool.or_eq_true] at hsplit
      rcases hsplit.2 with ha | hl
      · have hall : ∀ a ∈ allowedVars, a.toList.head? ≠ some '=' := by decide
        apply hall k (by simpa using ha)
        rw [hk, hc]
        rfl
      · obtain ⟨t, rfl⟩ := startsWith_iff.mp hl
        rw [String.toList_append] at hk
        have : 'L' = c := by simpa using congrArg List.head? hk
        rw [hc] at this
        exact absurd this (by decide)

/-! ### The inherited part -/

theorem splitEntry_envEntry_of_ne {p : String × String} {k v : String} (hk : k ≠ "")
    (ht : '=' ∉ p.1.toList.tail) (h : splitEntry (envEntry p) = some (k, v)) : p = (k, v) := by
  obtain ⟨n, w⟩ := p
  by_cases hn : '=' ∈ n.toList
  · -- a name that starts with `=` is split before its first character
    cases hl : n.toList with
    | nil => rw [hl] at hn; cases hn
    | cons c l =>
        rw [hl] at hn ht
        obtain rfl : '=' = c := by
          rcases List.mem_cons.mp hn with h | h
          · exact h
          · exact absurd h ht
        rw [splitEntry, splitOnceAt, envEntry] at h
        simp only [String.toList_append, hl, List.cons_append, splitOnce, if_true,
          Option.map_some, Option.some.injEq, Prod.mk.injEq] at h
        exact absurd h.1.symm hk
  · exact Option.some.inj ((splitEntry_envEntry w hn).symm.trans h)

/-- No inherited pair says anything the daemon's environment does not; outside system mode a
name that starts with `=` is an exception, which is set as the empty name. -/
theorem var_of_mem_inherited {h : Host} {dynamic : Bool} {k v : String}
    (hk : h.systemMode = true ∨ k ≠ "")
    (hm : (k, v) ∈ (inheritedEnv h dynamic).filterMap splitEntry) : h.env.var k = some v := by
  obtain ⟨e, he, hs⟩ := List.mem_filterMap.mp hm
  rcases mem_inheritedEnv he with ⟨p, hp, hw, rfl⟩ | ⟨home, hh, rfl⟩
  · have hpk : p = (k, v) := by
      rcases hk with hm | hk
      · rw [splitEntry_envEntry p.2 (not_mem_of_whitelisted (hw hm) (h.env.names p hp).2)] at hs
        exact Option.some.inj hs
      · exact splitEntry_envEntry_of_ne hk (h.env.names p hp).2 hs
    exact (lastVal_eq_some_iff h.env.nodup).mpr (hpk ▸ hp)
  · rw [splitEntry_envEntry home (by decide)] at hs
    obtain ⟨rfl, rfl⟩ := Prod.mk.inj (Option.some.inj hs)
    exact hh

/-! ### The child's environment -/

/-- The pairs that come from the env file and from `spec.env`. -/
def userPairs (file : List String) (s : AppSpec) : List (String × String) :=
  (file ++ specEnv s).filterMap splitEntry

/-- The child gets the daemon's environment under the user's pairs. -/
theorem prepareCmd_childEnv {h : Host} {s : AppSpec} {infoId infoName : String} {c : Command}
    (hc : prepareCmd h s infoId infoName = .ok c) :
    ∃ file, fileEnv h s = .ok file ∧ ∀ k, h.systemMode = true ∨ k ≠ "" →
      c.childEnv h.env k = overlay h.env.var (userPairs file s) k := by
  obtain ⟨bin, args, cmd, file, iso, -, hw, hf, hi, rfl⟩ := prepareCmd_ok_iff.mp hc
  refine ⟨file, hf, fun k hk => ?_⟩
  obtain ⟨he, hcl⟩ := buildCommand_envs bin args s.exec.shell
  obtain ⟨d, rfl⟩ := checkCwd_ok hw
  obtain ⟨he', hcl'⟩ := isolate_envs hi he hcl
  simp only [Command.childEnv, applyEnv, hcl', he', List.nil_append, overlay, userPairs,
    List.append_assoc, List.filterMap_append, Bool.false_eq_true, if_false]
  rw [lastVal_append, Option.or_assoc]
  congr 1
  cases hl : lastVal ((inheritedEnv h (isDynamic s)).filterMap splitEntry) k with
  | none => rfl
  | some v =>
      rw [var_of_mem_inherited hk (mem_of_lastVal hl)]
      rfl

/-- The env file or `spec.env` sets `k`. -/
def SetBySpec (h : Host) (s : AppSpec) (k : String) : Prop :=
  ∃ file, fileEnv h s = .ok file ∧ ∃ p ∈ userPairs file s, p.1 = k

/-- A name that is neither whitelisted nor `HOME` nor set by the spec. -/
def Stray (h : Host) (s : AppSpec) (k : String) : Prop :=
  whitelisted k = false ∧ k ≠ "HOME" ∧ ¬ SetBySpec h s k

/-- Two daemon environments agree on `HOME` and on every whitelisted name. -/
def AgreeOnWhitelist (e₁ e₂ : DaemonEnv) : Prop :=
  ∀ k, whitelisted k = true ∨ k = "HOME" → e₁.var k = e₂.var k

theorem processBinary_congr (h : Host) {e₁ e₂ : DaemonEnv} (ha : AgreeOnWhitelist e₁ e₂) :
    processBinary (h.withEnv e₁) = processBinary (h.withEnv e₂) := by
  have hp : e₁.var "PATH" = e₂.var "PATH" := ha _ (Or.inl (by decide))
  have : scanPathFor (h.withEnv e₁) "unitpm" = scanPathFor (h.withEnv e₂) "unitpm" := by
    simp only [scanPathFor, Host.withEnv, hp]
  unfold processBinary
  rw [this]
  rfl

theorem prepareCmd_ok_congr {h : Host} {s : AppSpec} {infoId infoName : String}
    {e₁ e₂ : DaemonEnv} (ha : AgreeOnWhitelist e₁ e₂) {c₁ : Command}
    (hc : prepareCmd (h.withEnv e₁) s infoId infoName = .ok c₁) :
    ∃ c₂, prepareCmd (h.withEnv e₂) s infoId infoName = .ok c₂ := by
  obtain ⟨bin, args, cmd, file, iso, hr, hw, hf, hi, -⟩ := prepareCmd_ok_iff.mp hc
  have hi' : isolate (h.withEnv e₂) s infoId infoName cmd = .ok iso := by
    unfold isolate at hi ⊢
    rw [← processBinary_congr h ha]
    exact hi
  exact ⟨_, prepareCmd_ok_iff.mpr ⟨bin, args, cmd, file, iso, hr, hw, hf, hi', rfl⟩⟩

theorem lastVal_userPairs_of_stray {h : Host} {s : AppSpec} {k : String} {file : List String}
    (hf : fileEnv h s = .ok file) (hk : ¬ SetBySpec h s k) : lastVal (userPairs file s) k = none :=
  lastVal_eq_none_iff.mpr fun p hp he => hk ⟨file, hf, p, hp, he⟩

theorem prepareCmd_childEnv_withEnv {h : Host} (hs : h.systemMode = true) {e : DaemonEnv}
    {s : AppSpec} {infoId infoName : String} {c : Command}
    (hc : prepareCmd (h.withEnv e) s infoId infoName = .ok c) :
    ∃ file, fileEnv h s = .ok file ∧ c.childEnv e = overlay e.var (userPairs file s) := by
  obtain ⟨file, hf, he⟩ := prepareCmd_childEnv hc
  exact ⟨file, hf, funext fun k => he k (Or.inl hs)⟩

/-- **System-mode environment**: under agreement on `HOME` and the whitelist, the two children
see the same environment iff the daemons also agree on the stray names, and no stray variable
reaches a child iff its daemon has none. -/
theorem childEnv_eq_iff_agree_on_stray (h : Host) (hs : h.systemMode = true) (s : AppSpec)
    (infoId infoName : String) (e₁ e₂ : DaemonEnv) (ha : AgreeOnWhitelist e₁ e₂) (c₁ : Command)
    (hc : prepareCmd (h.withEnv e₁) s infoId infoName = .ok c₁) :
    ∃ c₂, prepareCmd (h.withEnv e₂) s infoId infoName = .ok c₂ ∧
      (c₁.childEnv e₁ = c₂.childEnv e₂ ↔ ∀ k, Stray h s k → e₁.var k = e₂.var k) ∧
      ((∀ k, Stray h s k → c₁.childEnv e₁ k = none) ↔ ∀ k, Stray h s k → e₁.var k = none) := by
  obtain ⟨c₂, hc₂⟩ := prepareCmd_ok_congr ha hc
  obtain ⟨file, hf₀, h₁⟩ := prepareCmd_childEnv_withEnv hs hc
  obtain ⟨file', hf', h₂⟩ := prepareCmd_childEnv_withEnv hs hc₂
  obtain rfl : file = file' := Except.ok.inj (hf₀.symm.trans hf')
  have hstray : ∀ e : DaemonEnv, ∀ k, Stray h s k →
      overlay e.var (userPairs file s) k = e.var k := by
    intro e k hk
    rw [overlay, lastVal_userPairs_of_stray hf₀ hk.2.2, Option.none_or]
  refine ⟨c₂, hc₂, ⟨fun he k hk => ?_, fun he => ?_⟩, ⟨fun hn k hk => ?_, fun hn k hk => ?_⟩⟩
  · rw [← hstray e₁ k hk, ← hstray e₂ k hk]
    exact congrFun (h₁.symm.trans (he.trans h₂)) k
  · rw [h₁, h₂]
    funext k
    show (lastVal (userPairs file s) k).or (e₁.var k) = (lastVal (userPairs file s) k).or (e₂.var k)
    by_cases hw : whitelisted k = true ∨ k = "HOME"
    · rw [ha k hw]
    · rw [not_or, Bool.not_eq_true] at hw
      by_cases hset : SetBySpec h s k
      · obtain ⟨file', hf', p, hp, hpk⟩ := hset
        obtain rfl : file = file' := Except.ok.inj (hf₀.symm.trans hf')
        have hne : lastVal (userPairs file s) k ≠ none :=
          fun hn => lastVal_eq_none_iff.mp hn p hp hpk
        obtain ⟨v, hv⟩ := Option.ne_none_iff_exists'.mp hne
        rw [hv]
        rfl
      · rw [he k ⟨hw.1, hw.2, hset⟩]
  · rw [← hstray e₁ k hk, ← h₁]
    exact hn k hk
  · rw [h₁, hstray e₁ k hk]
    exact hn k hk

/-- A daemon started with `LD_PRELOAD` in its environment. -/
def preloadEnv : DaemonEnv where
  vars := [("PATH", "/usr/bin"), ("LD_PRELOAD", "/tmp/x.so")]
  nodup := by decide
  names := by decide

theorem preload_agree : AgreeOnWhitelist preloadEnv cleanEnv := by
  intro k hk
  have hl : k ≠ "LD_PRELOAD" := by
    rintro rfl
    rcases hk with hk | hk
    · exact absurd hk (by decide)
    · exact absurd hk (by decide)
  have hl' : ¬ "LD_PRELOAD" = k := fun e => hl e.symm
  simp [DaemonEnv.var, preloadEnv, cleanEnv, lastVal_cons, hl']

/-- The command both daemons build for the plain spec. -/
def sleepCommand : Command where
  program := "sleep"
  args := ["30"]
  envs := [("PATH", "/usr/bin")]
  setpgid := true

theorem childEnv_eq_iff_agree_on_stray_preload :
    ∃ c₂, prepareCmd ((plainHost true cleanEnv).withEnv cleanEnv) (plainSpec demoId) demoId "api" =
        .ok c₂ ∧
      (sleepCommand.childEnv preloadEnv = c₂.childEnv cleanEnv ↔
        ∀ k, Stray (plainHost true cleanEnv) (plainSpec demoId) k →
          preloadEnv.var k = cleanEnv.var k) ∧
      ((∀ k, Stray (plainHost true cleanEnv) (plainSpec demoId) k →
          sleepCommand.childEnv preloadEnv k = none) ↔
        ∀ k, Stray (plainHost true cleanEnv) (plainSpec demoId) k → preloadEnv.var k = none) :=
  childEnv_eq_iff_agree_on_stray (plainHost true cleanEnv) rfl (plainSpec demoId) demoId "api"
    preloadEnv cleanEnv preload_agree sleepCommand (by decide)

/-- The loader variable of the daemon is in the environment of the child. -/
theorem childEnv_leaks_ld_preload :
    AgreeOnWhitelist preloadEnv cleanEnv ∧
      ∃ c₁ c₂, prepareCmd (plainHost true preloadEnv) (plainSpec demoId) demoId "api" = .ok c₁ ∧
        prepareCmd (plainHost true cleanEnv) (plainSpec demoId) demoId "api" = .ok c₂ ∧
        c₁.childEnv preloadEnv "LD_PRELOAD" = some "/tmp/x.so" ∧
        c₁.childEnv preloadEnv ≠ c₂.childEnv cleanEnv := by
  refine ⟨preload_agree, sleepCommand, sleepCommand, by decide, by decide, by decide, fun h => ?_⟩
  have := congrFun h "LD_PRELOAD"
  exact absurd this (by decide)

end Unitpm
