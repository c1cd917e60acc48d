import Unitpm.Systemd
import Unitpm.Lib.Str
import Mathlib.Data.List.Basic

/-! # The words of the `systemd-run` call

What comes from the user stands behind a fixed prefix in the options of `--isolation dynamic`
(`optionTemplate`), and which options there are depends on no text of the user other than whether
the working directory is empty.  So no text ends the options, and none adds an option or takes one
away (`fullArgv_options`). -/

namespace Unitpm

open Rust.Str

namespace DynamicCommand

/-! ### The options -/

/-- The texts that are not the daemon's own. -/
inductive UserText where
  | id
  | name
  | cwd
  | envPath

def UserText.get (ctx : DynamicContext) (envPath : String) : UserText → String
  | .id => ctx.id
  | .name => ctx.name
  | .cwd => ctx.cwd
  | .envPath => envPath

/-- A word of the call: fixed, or a text behind a prefix. -/
inductive Word where
  | fixed (w : String)
  | behind (pre : String) (t : UserText)

def Word.text (ctx : DynamicContext) (envPath : String) : Word → String
  | .fixed w => w
  | .behind pre t => pre ++ t.get ctx envPath

/-- An option of the call: one word, or `-p` with its value. -/
inductive RunOption where
  | single (w : Word)
  | property (v : Word)

def RunOption.words : RunOption → List Word
  | .single w => [w]
  | .property v => [.fixed "-p", v]

/-- The value of a property. -/
def RunOption.value : RunOption → Option Word
  | .single _ => none
  | .property v => some v

/-- The value of the directive of a limit, when it is set and positive. -/
def limitText (limit : Option ℤ) (directive : ℤ → String) : List String :=
  (limit.filter fun n => 0 < n).toList.map directive

/-- The values of the resource directives. -/
def limitTexts : Option AppResources → List String
  | none => []
  | some r =>
      limitText r.memoryMaxBytes (fun n => "MemoryMax=" ++ toString n) ++
        (limitText r.cpuMaxPercent (fun n => "CPUQuota=" ++ toString n ++ "%") ++
          limitText r.tasksMax (fun n => "TasksMax=" ++ toString n))

/-- The options before the credential. -/
def leadingOptions : List RunOption :=
  [.single (.behind "--unit=unitpm-app-" .id), .single (.behind "--description=" .name)] ++
    hardening.map fun d => .property (.fixed d)

/-- The options from `--pipe` on. -/
def trailingOptions (hasCwd : Bool) (limits : List String) : List RunOption :=
  [.single (.fixed "--pipe"), .single (.fixed "--wait")] ++
    (if hasCwd then [.property (.behind "WorkingDirectory=" .cwd)] else []) ++
    limits.map fun l => .property (.fixed l)

/-- All options.  No text of the user goes in here. -/
def optionTemplate (hasCwd : Bool) (limits : List String) : List RunOption :=
  leadingOptions ++ .property (.behind "LoadCredential=env:" .envPath) ::
    trailingOptions hasCwd limits

/-- The values behind `-p` in a list of words. -/
def propertyValues : List String → List String
  | [] => []
  | [_] => []
  | w :: v :: ws => if w = "-p" then v :: propertyValues ws else propertyValues (v :: ws)

/-- The words of options for given texts. -/
def optionWords (ctx : DynamicContext) (envPath : String) (os : List RunOption) : List String :=
  (os.flatMap RunOption.words).map (Word.text ctx envPath)

/-! ### Prefixes -/

theorem append_ne {pre w : String} (h : ¬ pre.toList <+: w.toList) (t : String) :
    pre ++ t ≠ w := by
  rintro rfl
  rw [String.toList_append] at h
  exact h (List.prefix_append _ _)

theorem startsWith_append {p pre : String} (h : ¬ p.toList <+: pre.toList)
    (h' : ¬ pre.toList <+: p.toList) (t : String) : startsWith p (pre ++ t) = false := by
  rw [startsWith, ← Bool.not_eq_true, List.isPrefixOf_iff_prefix, String.toList_append]
  intro hp
  rcases List.prefix_or_prefix_of_prefix hp (List.prefix_append pre.toList t.toList) with hl | hr
  · exact h hl
  · exact h' hr

/-! ### What the functions of the source make of the template -/

section

variable {ctx : DynamicContext} {envPath : String}

theorem optionWords_append (os os' : List RunOption) :
    optionWords ctx envPath (os ++ os') =
      optionWords ctx envPath os ++ optionWords ctx envPath os' := by
  rw [optionWords, List.flatMap_append, List.map_append]
  rfl

theorem optionWords_cons (o : RunOption) (os : List RunOption) :
    optionWords ctx envPath (o :: os) =
      o.words.map (Word.text ctx envPath) ++ optionWords ctx envPath os := by
  rw [optionWords, List.flatMap_cons, List.map_append]
  rfl

theorem optionWords_fixed (ls : List String) :
    optionWords ctx envPath (ls.map fun l => .property (.fixed l)) =
      ls.flatMap fun l => ["-p", l] := by
  induction ls with
  | nil => rfl
  | cons l ls ih =>
      rw [List.map_cons, optionWords_cons, ih]
      rfl

theorem limitArg_eq (limit : Option ℤ) (directive : ℤ → String) :
    limitArg limit directive = (limitText limit directive).flatMap fun l => ["-p", l] := by
  cases limit with
  | none => rfl
  | some n =>
      by_cases h : 0 < n
      · simp [limitArg, limitText, Option.filter, h]
      · simp [limitArg, limitText, Option.filter, h]

theorem resourceArgs_eq (r : AppResources) :
    resourceArgs r = (limitTexts (some r)).flatMap fun l => ["-p", l] := by
  simp only [resourceArgs, limitTexts, List.flatMap_append, ← limitArg_eq]

/-- The arguments that `build_args` returns. -/
theorem buildArgs_eq (envPath : String) (hid : ctx.id ≠ "") :
    buildArgs ctx = .ok (optionWords ctx envPath leadingOptions ++
      (optionWords ctx envPath (trailingOptions (ctx.cwd ≠ "") (limitTexts ctx.resources)) ++
        ["--"])) := by
  have hlead : optionWords ctx envPath leadingOptions =
      ["--unit=" ++ unitNamePrefix ++ ctx.id, "--description=" ++ ctx.name] ++
        hardening.flatMap fun d => ["-p", d] := by
    rw [leadingOptions, optionWords_append, optionWords_fixed]
    rfl
  have hcwd : optionWords ctx envPath
      (if ctx.cwd ≠ "" then [.property (.behind "WorkingDirectory=" .cwd)] else []) =
        if ctx.cwd = "" then [] else ["-p", "WorkingDirectory=" ++ ctx.cwd] := by
    by_cases h : ctx.cwd = ""
    · rw [if_neg (not_not.mpr h), if_pos h]
      rfl
    · rw [if_pos h, if_neg h]
      rfl
  have htrail : optionWords ctx envPath
      (trailingOptions (ctx.cwd ≠ "") (limitTexts ctx.resources)) =
        ["--pipe", "--wait"] ++ (if ctx.cwd = "" then [] else
          ["-p", "WorkingDirectory=" ++ ctx.cwd]) ++
          (limitTexts ctx.resources).flatMap fun l => ["-p", l] := by
    rw [trailingOptions, optionWords_append, optionWords_append, optionWords_fixed]
    simp only [decide_eq_true_eq, hcwd]
    rfl
  rw [buildArgs, if_neg hid, hlead, htrail]
  cases ctx.resources with
  | none => simp only [limitTexts, List.flatMap_nil, List.append_assoc]
  | some r => simp only [resourceArgs_eq, List.append_assoc]

theorem insertCredential_append {l : List String} (h : "--pipe" ∉ l) (m : List String) :
    insertCredential envPath (l ++ "--pipe" :: m) =
      l ++ "-p" :: ("LoadCredential=env:" ++ envPath) :: "--pipe" :: m := by
  induction l with
  | nil => exact if_pos rfl
  | cons a l ih =>
      obtain ⟨ha, hl⟩ := List.ne_and_not_mem_of_not_mem_cons h
      rw [List.cons_append, insertCredential, if_neg fun he => ha he.symm, ih hl]
      rfl

/-- The values of the properties, where `-p` is no option by itself. -/
theorem propertyValues_optionWords {os : List RunOption}
    (h : ∀ w, .single w ∈ os → w.text ctx envPath ≠ "-p") :
    propertyValues (optionWords ctx envPath os) =
      (os.filterMap RunOption.value).map (Word.text ctx envPath) := by
  induction os with
  | nil => rfl
  | cons o os ih =>
      have hrest := ih fun w hw => h w (List.mem_cons_of_mem o hw)
      rw [optionWords_cons]
      cases o with
      | property v =>
          have hvalue : (RunOption.property v).value = some v := rfl
          rw [List.filterMap_cons_some hvalue, List.map_cons, ← hrest]
          exact if_pos rfl
      | single w =>
          have hw := h w List.mem_cons_self
          rw [List.filterMap_cons_none rfl, ← hrest]
          show propertyValues (w.text ctx envPath :: optionWords ctx envPath os) = _
          cases optionWords ctx envPath os with
          | nil => rfl
          | cons v ws => exact if_neg hw

/-- The prefixes of the values behind the credential. -/
def valuePrefixes : List String := ["WorkingDirectory=", "MemoryMax=", "CPUQuota=", "TasksMax="]

theorem mem_limitText {limit : Option ℤ} {directive : ℤ → String} {v : String}
    (h : v ∈ limitText limit directive) : ∃ n, v = directive n := by
  obtain ⟨n, -, rfl⟩ := List.mem_map.mp h
  exact ⟨n, rfl⟩

theorem exists_prefix_of_mem_limitTexts {resources : Option AppResources} {v : String}
    (h : v ∈ limitTexts resources) : ∃ pre ∈ valuePrefixes, ∃ t, v = pre ++ t := by
  cases resources with
  | none => cases h
  | some r =>
      rw [limitTexts, List.mem_append, List.mem_append] at h
      rcases h with h | h | h
      · obtain ⟨n, rfl⟩ := mem_limitText h
        exact ⟨"MemoryMax=", by simp [valuePrefixes], toString n, rfl⟩
      · obtain ⟨n, rfl⟩ := mem_limitText h
        exact ⟨"CPUQuota=", by simp [valuePrefixes], toString n ++ "%", String.append_assoc⟩
      · obtain ⟨n, rfl⟩ := mem_limitText h
        exact ⟨"TasksMax=", by simp [valuePrefixes], toString n, rfl⟩

end

/-- The values behind the credential. -/
def laterValues (ctx : DynamicContext) : List String :=
  (if ctx.cwd ≠ "" then ["WorkingDirectory=" ++ ctx.cwd] else []) ++ limitTexts ctx.resources

theorem exists_prefix_of_mem_laterValues {ctx : DynamicContext} {v : String}
    (h : v ∈ laterValues ctx) : ∃ pre ∈ valuePrefixes, ∃ t, v = pre ++ t := by
  rcases List.mem_append.mp h with h | h
  · split_ifs at h with hcwd
    · obtain rfl := List.mem_singleton.mp h
      exact ⟨"WorkingDirectory=", by simp [valuePrefixes], ctx.cwd, rfl⟩
    · cases h
  · exact exists_prefix_of_mem_limitTexts h

/-- An option of one word is neither `-p` nor the end of the options. -/
theorem single_text_ne {ctx : DynamicContext} {envPath : String} {hasCwd : Bool}
    {limits : List String} {w : Word} (hw : .single w ∈ optionTemplate hasCwd limits) {x : String}
    (hx : x ∈ ["-p", "--"]) : w.text ctx envPath ≠ x := by
  have hmem : w = .behind "--unit=unitpm-app-" .id ∨ w = .behind "--description=" .name ∨
      w = .fixed "--pipe" ∨ w = .fixed "--wait" := by
    simp only [optionTemplate, leadingOptions, trailingOptions] at hw
    split_ifs at hw <;> simpa using hw
  have hunit : ∀ x ∈ ["-p", "--"], ¬ "--unit=unitpm-app-".toList <+: x.toList := by decide +kernel
  have hdescription : ∀ x ∈ ["-p", "--"], ¬ "--description=".toList <+: x.toList := by
    decide +kernel
  have hpipe : ∀ x ∈ ["-p", "--"], "--pipe" ≠ x := by decide
  have hwait : ∀ x ∈ ["-p", "--"], "--wait" ≠ x := by decide
  rcases hmem with rfl | rfl | rfl | rfl
  · exact append_ne (hunit x hx) _
  · exact append_ne (hdescription x hx) _
  · exact hpipe x hx
  · exact hwait x hx

theorem text_value_fixed (ctx : DynamicContext) (envPath : String) (ls : List String) :
    ((ls.map fun l => RunOption.property (.fixed l)).filterMap RunOption.value).map
      (Word.text ctx envPath) = ls := by
  induction ls with
  | nil => rfl
  | cons l ls ih => exact congrArg (l :: ·) ih

theorem propertyValues_template (ctx : DynamicContext) (envPath : String) :
    propertyValues (optionWords ctx envPath
      (optionTemplate (ctx.cwd ≠ "") (limitTexts ctx.resources))) =
        hardening ++ ("LoadCredential=env:" ++ envPath) :: laterValues ctx := by
  rw [propertyValues_optionWords]
  · rw [optionTemplate, leadingOptions, trailingOptions, laterValues]
    by_cases hcwd : ctx.cwd = ""
    · simp only [List.filterMap_append, List.filterMap_cons, List.filterMap_nil, RunOption.value,
        List.map_append, List.map_cons, text_value_fixed, hcwd, ne_eq, not_true_eq_false,
        decide_false, Bool.false_eq_true, if_false]
      rfl
    · simp only [List.filterMap_append, List.filterMap_cons, List.filterMap_nil, RunOption.value,
        List.map_append, List.map_cons, text_value_fixed, hcwd, ne_eq, not_false_eq_true,
        decide_true, if_true]
      rfl
  · exact fun w hw => single_text_ne hw List.mem_cons_self

theorem pipe_notMem_leading (ctx : DynamicContext) (envPath : String) :
    "--pipe" ∉ optionWords ctx envPath leadingOptions := by
  have hwords : optionWords ctx envPath leadingOptions =
      ["--unit=unitpm-app-" ++ ctx.id, "--description=" ++ ctx.name] ++
        hardening.flatMap fun d => ["-p", d] := rfl
  have hfixed : "--pipe" ∉ hardening.flatMap fun d => ["-p", d] := by decide
  rw [hwords, List.mem_append, List.mem_cons, List.mem_singleton]
  rintro ((h | h) | h)
  · exact append_ne (by decide +kernel) ctx.id h.symm
  · exact append_ne (by decide +kernel) ctx.name h.symm
  · exact hfixed h

theorem insertCredential_args (ctx : DynamicContext) (envPath : String) (hasCwd : Bool)
    (limits : List String) :
    insertCredential envPath (optionWords ctx envPath leadingOptions ++
      (optionWords ctx envPath (trailingOptions hasCwd limits) ++ ["--"])) =
        optionWords ctx envPath (optionTemplate hasCwd limits) ++ ["--"] := by
  obtain ⟨rest, hrest⟩ : ∃ rest,
      optionWords ctx envPath (trailingOptions hasCwd limits) = "--pipe" :: rest := ⟨_, rfl⟩
  rw [optionTemplate, optionWords_append, optionWords_cons, hrest, List.cons_append,
    insertCredential_append (pipe_notMem_leading ctx envPath), List.append_assoc]
  rfl

/-- No word of the options ends them. -/
theorem separator_notMem_template (ctx : DynamicContext) (envPath : String) :
    "--" ∉ optionWords ctx envPath
      (optionTemplate (ctx.cwd ≠ "") (limitTexts ctx.resources)) := by
  intro h
  obtain ⟨x, hx, htext⟩ := List.mem_map.mp h
  obtain ⟨o, ho, hxo⟩ := List.mem_flatMap.mp hx
  cases o with
  | single w =>
      obtain rfl := List.mem_singleton.mp hxo
      exact single_text_ne ho (by simp) htext
  | property v =>
      obtain rfl | hxv := List.mem_cons.mp hxo
      · have hne : "-p" ≠ "--" := by decide
        exact hne htext
      obtain rfl := List.mem_singleton.mp hxv
      have hmem : x.text ctx envPath ∈ propertyValues (optionWords ctx envPath
          (optionTemplate (ctx.cwd ≠ "") (limitTexts ctx.resources))) := by
        rw [propertyValues_optionWords fun w hw => single_text_ne hw List.mem_cons_self]
        exact List.mem_map_of_mem (List.mem_filterMap.mpr ⟨_, ho, rfl⟩)
      rw [propertyValues_template, htext, List.mem_append, List.mem_cons] at hmem
      rcases hmem with h | h | h
      · revert h
        decide
      · exact append_ne (by decide +kernel) envPath h.symm
      · obtain ⟨pre, hpre, t, ht⟩ := exists_prefix_of_mem_laterValues h
        have hpres : ∀ pre ∈ valuePrefixes, ¬ pre.toList <+: "--".toList := by decide +kernel
        exact append_ne (hpres pre hpre) t ht.symm

/-- **The call.** Behind the first `--` are the wrapper and the command, and before it each of the
six directives and the credential once, in options that come from a template without texts of
the user. -/
theorem fullArgv_options (ctx : DynamicContext) (hid : ctx.id ≠ "")
    (envPath wrapper bin : String) (args : List String) :
    ∃ cmd options, dynamicCommand ctx = .ok cmd ∧
      ((cmd.withWrapperBinary wrapper).withEnvPath envPath).fullArgv bin args =
        options ++ "--" :: wrapper :: "_exec-env" :: bin :: args ∧
      "--" ∉ options ∧
      (∀ d ∈ directives, (propertyValues options).count d = 1) ∧
      (propertyValues options).filter (startsWith "LoadCredential=") =
        ["LoadCredential=env:" ++ envPath] ∧
      options = optionWords ctx envPath
        (optionTemplate (ctx.cwd ≠ "") (limitTexts ctx.resources)) := by
  have hbuild := buildArgs_eq envPath hid
  refine ⟨_, optionWords ctx envPath (optionTemplate (ctx.cwd ≠ "") (limitTexts ctx.resources)),
    by rw [dynamicCommand, hbuild]; rfl, ?_, separator_notMem_template ctx envPath, ?_, ?_, rfl⟩
  · have hargs := insertCredential_args ctx envPath (ctx.cwd ≠ "") (limitTexts ctx.resources)
    rw [fullArgv, withEnvPath, withWrapperBinary, hargs]
    simp only [List.append_assoc, List.cons_append, List.nil_append]
    rfl
  · intro d hdir
    have hd : d ∈ hardening := (by decide : directives ⊆ hardening) hdir
    have hlater : d ∉ ("LoadCredential=env:" ++ envPath) :: laterValues ctx := by
      have hpres : ∀ d ∈ hardening, ∀ pre ∈ "LoadCredential=env:" :: valuePrefixes,
          ¬ pre.toList <+: d.toList := by decide +kernel
      rw [List.mem_cons]
      rintro (h | h)
      · exact append_ne (hpres d hd _ List.mem_cons_self) envPath h.symm
      · obtain ⟨pre, hpre, t, ht⟩ := exists_prefix_of_mem_laterValues h
        exact append_ne (hpres d hd pre (List.mem_cons_of_mem _ hpre)) t ht.symm
    have hnodup : hardening.Nodup := by decide
    rw [propertyValues_template, List.count_append, List.count_eq_zero.mpr hlater,
      List.count_eq_one_of_mem hnodup hd]
  · have hfixed : hardening.filter (startsWith "LoadCredential=") = [] := by decide +kernel
    have hcredential : startsWith "LoadCredential=" ("LoadCredential=env:" ++ envPath) = true := by
      rw [startsWith, List.isPrefixOf_iff_prefix, String.toList_append]
      have hpre : "LoadCredential=".toList <+: "LoadCredential=env:".toList := by decide +kernel
      exact hpre.trans (List.prefix_append _ _)
    have hlater : (laterValues ctx).filter (startsWith "LoadCredential=") = [] := by
      have hpres : ∀ pre ∈ valuePrefixes, ¬ "LoadCredential=".toList <+: pre.toList ∧
          ¬ pre.toList <+: "LoadCredential=".toList := by decide +kernel
      rw [List.filter_eq_nil_iff]
      intro v hv
      obtain ⟨pre, hpre, t, rfl⟩ := exists_prefix_of_mem_laterValues hv
      rw [startsWith_append (hpres pre hpre).1 (hpres pre hpre).2]
      exact Bool.false_ne_true
    rw [propertyValues_template, List.filter_append, hfixed, List.filter_cons_of_pos hcredential,
      hlater]
    rfl

/-- A context whose texts are options themselves. -/
theorem fullArgv_options_hostile :
    ∃ cmd options, dynamicCommand ⟨"--", "-p", "--pipe", none⟩ = .ok cmd ∧
      ((cmd.withWrapperBinary "/usr/bin/unitpm").withEnvPath "--").fullArgv "--" ["-p"] =
        options ++ "--" :: "/usr/bin/unitpm" :: "_exec-env" :: "--" :: ["-p"] ∧
      "--" ∉ options ∧
      (∀ d ∈ directives, (propertyValues options).count d = 1) ∧
      (propertyValues options).filter (startsWith "LoadCredential=") =
        ["LoadCredential=env:" ++ "--"] ∧
      options = optionWords ⟨"--", "-p", "--pipe", none⟩ "--"
        (optionTemplate ("--pipe" ≠ "") (limitTexts none)) :=
  fullArgv_options ⟨"--", "-p", "--pipe", none⟩ (by decide) "--" "/usr/bin/unitpm" "--" ["-p"]

end DynamicCommand

end Unitpm
