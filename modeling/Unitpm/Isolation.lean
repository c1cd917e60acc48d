import Unitpm.ChildEnv
import Unitpm.Sandbox

/-! # What an isolated command runs

`prepare_cmd` builds the spawned command itself, beside `plan_isolation`, `full_argv` and
`wrap_sandbox`, which are the plans of the three modes.  Only in self mode do the two agree:

* sandbox mode drops the user's command and sets no `UNITPM_SANDBOX_CONFIG`, so the wrapper
  runs whatever such a variable of the spec or of the daemon says;
* dynamic mode drops it as well, without a credential and with a second `--`. -/

namespace Unitpm

open Rust.Str Overlay

/-! ### The three modes -/

/-- The built command makes exactly `bin` with `args` run: directly or through `sh -c`, through
the sandbox wrapper and its configuration, or through the `systemd-run` call that
`plan_isolation` plans. -/
def RunsExactly (codec : Json.Codec) (h : Host) (s : AppSpec) (infoId infoName : String)
    (bin : String) (args : List String) (c : Command) : Prop :=
  if s.runAsMode = "sandbox" then
    c.args = [wrapperSubcommand] ∧ ∃ raw cfg, c.childEnv h.env configEnvVar = some raw ∧
      Config.fromStr codec raw = some cfg ∧ cfg.command = bin ∧ cfg.args = args
  else if s.runAsMode = "dynamic" then
    ∃ env dc, prepareEnv h s = .ok env ∧
      (planIsolation h s infoId infoName env).2 = .ok (.dynamic dc) ∧
      c.argv = dc.binary :: dc.fullArgv bin args
  else if s.exec.shell then c.argv = ["/bin/sh", "-c", shellLine bin args]
  else c.argv = bin :: args

/-- The sandbox configuration that is there without the daemon's doing: from `spec.env`, else
from the env file, else from the daemon's own environment. -/
def suppliedConfig (codec : Json.Codec) (h : Host) (s : AppSpec) : Option Config :=
  match fileEnv h s with
  | .error _ => none
  | .ok file => (overlay h.env.var (userPairs file s) configEnvVar).bind (Config.fromStr codec)

theorem sandbox_command {h : Host} {s : AppSpec} {infoId infoName : String} {c : Command}
    (hm : s.runAsMode = "sandbox") (hc : prepareCmd h s infoId infoName = .ok c) :
    c.args = [wrapperSubcommand] := by
  obtain ⟨bin, args, cmd, file, iso, -, -, -, hi, rfl⟩ := prepareCmd_ok_iff.mp hc
  rw [isolate, if_pos hm] at hi
  split at hi
  · cases hi
  · obtain rfl := Except.ok.inj hi
    rfl

theorem DynamicCommand.length_lt_insertCredential (envPath : String) {l : List String}
    (hl : "--pipe" ∈ l) : l.length < (insertCredential envPath l).length := by
  induction l with
  | nil => cases hl
  | cons a l ih =>
      rw [insertCredential]
      split
      · simp only [List.length_cons]
        omega
      · rename_i ha
        have hl' : "--pipe" ∈ l := by
          rcases List.mem_cons.mp hl with h | h
          · exact absurd h.symm ha
          · exact h
        have := ih hl'
        simp only [List.length_cons]
        omega

theorem DynamicCommand.pipe_mem_buildArgs {ctx : DynamicContext} {l : List String}
    (h : buildArgs ctx = .ok l) : "--pipe" ∈ l := by
  unfold buildArgs at h
  split at h
  · cases h
  · obtain rfl := Except.ok.inj h
    simp

/-- The command planned for dynamic mode carries the credential, the built one does not. -/
theorem dynamic_command_ne_plan {h : Host} {s : AppSpec} {infoId infoName : String} {c : Command}
    {env : List String} {dc : DynamicCommand} (hm : s.runAsMode = "dynamic")
    (hc : prepareCmd h s infoId infoName = .ok c)
    (hp : (planIsolation h s infoId infoName env).2 = .ok (.dynamic dc)) (bin : String)
    (args : List String) : c.argv ≠ dc.binary :: dc.fullArgv bin args := by
  have hs : s.runAsMode ≠ "sandbox" := by rw [hm]; decide
  obtain ⟨bin', args', cmd, file, iso, -, -, -, hi, rfl⟩ := prepareCmd_ok_iff.mp hc
  rw [isolate, if_neg hs, if_pos hm, buildDynamicArgs, dynamicCommand] at hi
  rw [planIsolation, if_neg hs, if_pos hm, dynamicCommand] at hp
  cases hb : DynamicCommand.buildArgs (dynamicContext s infoId infoName) with
  | error e => rw [hb] at hi; cases hi
  | ok l =>
      rw [hb] at hi hp
      simp only [Except.map] at hi hp
      cases hbin : processBinary h with
      | error e => rw [hbin] at hi; cases hi
      | ok w =>
          rw [hbin] at hi hp
          obtain rfl := Except.ok.inj hi
          have hdc : dc = (DynamicCommand.withWrapperBinary { binary := "systemd-run", args := l }
              w).withEnvPath (credsEnvPath infoId) := by
            split at hp
            · cases hp
            · split at hp
              · cases hp
              · exact (IsolationPlan.dynamic.inj (Except.ok.inj hp)).symm
          subst hdc
          intro he
          have hlen := congrArg List.length he
          have hlt := DynamicCommand.length_lt_insertCredential (credsEnvPath infoId)
            (DynamicCommand.pipe_mem_buildArgs hb)
          simp only [Command.argv, applyEnv, DynamicCommand.fullArgv, DynamicCommand.withEnvPath,
            DynamicCommand.withWrapperBinary, List.length_cons, List.length_append,
            List.length_nil] at hlen
          omega

theorem self_command {h : Host} {s : AppSpec} {infoId infoName : String} {c : Command}
    {bin : String} {args : List String} (hs : s.runAsMode ≠ "sandbox")
    (hd : s.runAsMode ≠ "dynamic") (hr : resolveCommand s = .ok (bin, args))
    (hc : prepareCmd h s infoId infoName = .ok c) :
    c.argv = if s.exec.shell then ["/bin/sh", "-c", shellLine bin args] else bin :: args := by
  obtain ⟨bin', args', cmd, file, iso, hr', hw, -, hi, rfl⟩ := prepareCmd_ok_iff.mp hc
  obtain ⟨rfl, rfl⟩ := Prod.mk.inj (Except.ok.inj (hr.symm.trans hr'))
  rw [isolate, if_neg hs, if_neg hd] at hi
  obtain rfl := Except.ok.inj hi
  obtain ⟨d, rfl⟩ := checkCwd_ok hw
  simp only [Command.argv, applyEnv, buildCommand]
  split <;> rfl

/-- **The user's command**: a built command makes exactly the resolved command run iff the mode
is not dynamic and, in sandbox mode, a configuration for that very command was supplied from
outside. -/
theorem prepareCmd_runsExactly_iff (codec : Json.Codec) (h : Host) (s : AppSpec)
    (infoId infoName : String) (bin : String) (args : List String) (c : Command)
    (hr : resolveCommand s = .ok (bin, args)) (hc : prepareCmd h s infoId infoName = .ok c) :
    RunsExactly codec h s infoId infoName bin args c ↔
      s.runAsMode ≠ "dynamic" ∧ (s.runAsMode = "sandbox" →
        ∃ cfg, suppliedConfig codec h s = some cfg ∧ cfg.command = bin ∧ cfg.args = args) := by
  unfold RunsExactly
  split_ifs with hs hd hsh
  · obtain ⟨file, hf, he⟩ := prepareCmd_childEnv hc
    rw [he configEnvVar (Or.inr (by decide)), suppliedConfig, hf]
    constructor
    · rintro ⟨-, raw, cfg, h1, h2, h3⟩
      exact ⟨by rw [hs]; decide, fun _ => ⟨cfg, Option.bind_eq_some_iff.mpr ⟨raw, h1, h2⟩, h3⟩⟩
    · rintro ⟨-, hcfg⟩
      obtain ⟨cfg, hb, h3⟩ := hcfg hs
      obtain ⟨raw, h1, h2⟩ := Option.bind_eq_some_iff.mp hb
      exact ⟨sandbox_command hs hc, raw, cfg, h1, h2, h3⟩
  · constructor
    · rintro ⟨env, dc, -, hp, ha⟩
      exact absurd ha (dynamic_command_ne_plan hd hc hp bin args)
    · exact fun hn => absurd hd hn.1
  · have := self_command hs hd hr hc
    rw [if_pos hsh] at this
    exact ⟨fun _ => ⟨hd, fun h => absurd h hs⟩, fun _ => this⟩
  · have := self_command hs hd hr hc
    rw [if_neg hsh] at this
    exact ⟨fun _ => ⟨hd, fun h => absurd h hs⟩, fun _ => this⟩

theorem prepareCmd_runsExactly_iff_sleep :
    RunsExactly Json.compact (plainHost true cleanEnv) (plainSpec demoId) demoId "api" "sleep"
        ["30"] sleepCommand ↔
      (plainSpec demoId).runAsMode ≠ "dynamic" ∧ ((plainSpec demoId).runAsMode = "sandbox" →
        ∃ cfg, suppliedConfig Json.compact (plainHost true cleanEnv) (plainSpec demoId) =
          some cfg ∧ cfg.command = "sleep" ∧ cfg.args = ["30"]) :=
  prepareCmd_runsExactly_iff Json.compact (plainHost true cleanEnv) (plainSpec demoId) demoId "api"
    "sleep" ["30"] sleepCommand (by decide) (by decide)

/-- The plain command under `--isolation sandbox`. -/
def sandboxSpec : AppSpec := { plainSpec demoId with runAs := some { mode := "sandbox" } }

/-- What is built for it. -/
def bareWrapper : Command where
  program := "/usr/bin/unitpm"
  args := ["_exec-sandbox"]
  currentDir := some "."
  envs := [("PATH", "/usr/bin")]

/-- In sandbox mode the wrapper is started without a configuration. -/
theorem sandbox_command_lost :
    resolveCommand sandboxSpec = .ok ("sleep", ["30"]) ∧
      prepareCmd (plainHost true cleanEnv) sandboxSpec demoId "api" = .ok bareWrapper ∧
      ¬ RunsExactly Json.compact (plainHost true cleanEnv) sandboxSpec demoId "api" "sleep"
        ["30"] bareWrapper := by
  refine ⟨by decide, by decide, ?_⟩
  rw [RunsExactly, if_pos (by decide)]
  rintro ⟨-, raw, cfg, hraw, -⟩
  have hnone : bareWrapper.childEnv (plainHost true cleanEnv).env configEnvVar = none := by decide
  rw [hnone] at hraw
  cases hraw

end Unitpm
