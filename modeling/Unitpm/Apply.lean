import Unitpm.Dispatch
import Unitpm.Lib.Run
import Unitpm.Manifest

/-! # `unitpm apply`

`cli/commands/apply`: the specs of a manifest are saved and requested one after the other, up to the
first failure.  What the daemon decides about an app and what the client reads of its reply are
given; the two differ when the reply to an accepted app cannot be read.

`applyRun_created_iff`: every file that the command leaves belongs to an app the daemon has accepted
exactly when no app that is reached is rejected and no save is cut off half way; unlike `start`, the
command does not take back what it has saved (`apply_keeps_rejected`). -/

namespace Unitpm

open Rust.Str Run

/-! ### The command -/

/-- `Display` of an error of a call; `errText` is the text of a decoding error. -/
def Ipc.TransportError.toText (errText : Serde.Error → String) : Ipc.TransportError → String
  | .io e => "io error: " ++ e
  | .json e => "json error: " ++ errText e
  | .idMismatch got want => "response ID mismatch: got " ++ got ++ ", want " ++ want
  | .remote code message _ => "ipc error: [" ++ code ++ "] " ++ message

/-- The daemon accepts an app, and the client makes of the reply what it can; or it rejects it. -/
inductive DaemonReply where
  | accepted (client : Except Ipc.TransportError StartResponse)
  | rejected (code message : String)

/-- The answers of the world to `apply`; those for the `i`-th app are under `i`. -/
structure ApplyHost where
  manifest : String → Except String Manifest.File
  connectErr : Option String := none
  ids : ℕ → String
  now : ℕ → String
  host : ℕ → Host
  reply : ℕ → StartRequest → DaemonReply
  errText : Serde.Error → String

/-- One line of the batch report: the target, and the id and pid or the error. -/
structure ApplyResult where
  target : String
  result : Except String (String × ℤ)

structure ApplyState where
  dir : SpecDir
  accepted : List String := []
  report : List ApplyResult := []

/-- `mutate_spec`. -/
def mutateSpec (s : AppSpec) : AppSpec := { s with env := some (s.env.getD .empty) }

/-- `target_label`. -/
def targetLabel (s : AppSpec) : String := displayNs s ++ "/" ++ s.name

/-- What the loop fills in. -/
def prepareApp (id now : String) (s : AppSpec) : AppSpec :=
  { s with
    id := id
    ns := if orEmpty s.ns = "" then some defaultNamespace else s.ns
    createdAt := if s.createdAt = none then some now else s.createdAt
    exec := if s.exec.command.isSome ∧ s.exec.args = none then { s.exec with args := some [] }
      else s.exec }

namespace ApplyState

def ok (st : ApplyState) (target id : String) (resp : StartResponse) : ApplyState :=
  { st with report := st.report ++
      [{ target := target, result := .ok (id, (resp.data.bind StartResponseData.pid).getD 0) }] }

def fail (st : ApplyState) (target e : String) : ApplyState :=
  { st with report := st.report ++ [{ target := target, result := .error e }] }

end ApplyState

namespace ApplyHost

variable (env : ApplyHost)

/-- The spec of an app, as it is saved and sent. -/
def spec (a : AppSpec × ℕ) : AppSpec := prepareApp (env.ids a.2) (env.now a.2) a.1

def write (a : AppSpec × ℕ) : WriteResult :=
  (env.host a.2).specWrite (env.ids a.2) (env.spec a)

def request (a : AppSpec × ℕ) : StartRequest where
  protocolVersion := 1
  requestId := env.ids a.2
  kind := "start"
  spec := env.spec a

def answer (a : AppSpec × ℕ) : DaemonReply := env.reply a.2 (env.request a)

/-- The loop body of `run`. -/
def applyOne (st : ApplyState) (a : AppSpec × ℕ) : ApplyState × Except String Unit :=
  let id := env.ids a.2
  let s := env.spec a
  if id = "" then (st.fail a.1.name "failed to generate ID", .error "failed to generate ID")
  else if s.exec.command = none ∧ s.exec.entry = none then
    (st.fail s.name "spec must specify command or entry",
      .error "spec must specify command or entry")
  else match st.dir.saveSpec (env.host a.2) id s with
    | (dir, .error e) =>
        ({ st with dir := dir }.fail (targetLabel s) ("failed to save spec: " ++ e), .error e)
    | (dir, .ok _) =>
        let failed := fun e : Ipc.TransportError =>
          "apply failed for " ++ s.name ++ ": " ++ e.toText env.errText
        match env.answer a with
        | .accepted (.ok resp) =>
            ({ st with dir := dir, accepted := st.accepted ++ [id] }.ok (targetLabel s) id resp,
              .ok ())
        | .accepted (.error e) =>
            ({ st with dir := dir, accepted := st.accepted ++ [id] }.fail (targetLabel s)
              (failed e), .error (failed e))
        | .rejected code message =>
            ({ st with dir := dir }.fail (targetLabel s) (failed (.remote code message none)),
              .error (failed (.remote code message none)))

/-- The flags of a command line, without their dashes. -/
def flagName (a : String) : Option String := (stripPrefix? "--" a).or (stripPrefix? "-" a)

/-- `run` up to the loop: the specs to apply, or how the command ends without one. -/
def localSpecs (args : List String) : Except (Except String Unit) (List AppSpec) :=
  if args.any fun a => a = "-h" ∨ a = "--help" then .error (.ok ())
  else match (args.filterMap flagName).find? fun f => f ≠ "json" with
    | some f => .error (.error ("Unknown flag: --" ++ f))
    | none =>
        match args.filter fun a => flagName a = none with
        | [] => .error (.error "missing unitpm.yml file path")
        | path :: _ =>
            match env.manifest path with
            | .error e => .error (.error e)
            | .ok file =>
                match Manifest.validate file with
                | .error e => .error (.error e.toText)
                | .ok _ =>
                    match Manifest.toAppSpecs file with
                    | .error e => .error (.error e.toText)
                    | .ok specs =>
                        match env.connectErr with
                        | some e => .error (.error e)
                        | none => .ok (specs.map mutateSpec)

/-- `run`. -/
def applyRun (dir : SpecDir) (args : List String) : ApplyState × Except String Unit :=
  match env.localSpecs args with
  | .error result => ({ dir := dir }, result)
  | .ok specs => untilError env.applyOne { dir := dir } specs.zipIdx

/-! ### The files the loop leaves -/

variable {env}

theorem exec_spec (a : AppSpec × ℕ) :
    (env.spec a).exec.command = a.1.exec.command ∧ (env.spec a).exec.entry = a.1.exec.entry := by
  simp only [spec, prepareApp]
  split_ifs <;> exact ⟨rfl, rfl⟩

/-- The app is applied: saved, accepted, and the client has read so. -/
def Applied (env : ApplyHost) (a : AppSpec × ℕ) : Prop :=
  env.ids a.2 ≠ "" ∧ env.write a = .done ∧ ∃ resp, env.answer a = .accepted (.ok resp)

/-- No app that the loop reaches is rejected, and none has a save that is cut off half way. -/
def NoneLeft (env : ApplyHost) : List (AppSpec × ℕ) → Prop
  | [] => True
  | a :: l =>
      (env.ids a.2 ≠ "" → (∀ e, env.write a ≠ .torn e) ∧
        (env.write a = .done → ∃ client, env.answer a = .accepted client)) ∧
      (env.Applied a → NoneLeft env l)

/-- What the loop body leaves: the files, the accepted apps, and whether the loop goes on. -/
def Leaves (env : ApplyHost) (st : ApplyState) (a : AppSpec × ℕ) (dir : SpecDir)
    (accepted : List String) (goesOn : Bool) : Prop :=
  ∃ st' r, env.applyOne st a = (st', r) ∧ st'.dir = dir ∧ st'.accepted = accepted ∧
    r.isOk = goesOn

section Cases

variable {st : ApplyState} {a : AppSpec × ℕ}

theorem leaves_of_no_id (hid : env.ids a.2 = "") :
    env.Leaves st a st.dir st.accepted false := by
  unfold Leaves
  simp only [applyOne, if_pos hid]
  exact ⟨_, _, rfl, rfl, rfl, rfl⟩

/-- An app that has something to run. -/
def Runs (a : AppSpec × ℕ) : Prop :=
  a.1.exec.command.isSome = true ∨ a.1.exec.entry.isSome = true

theorem Runs.spec (hruns : Runs a) :
    ¬ ((env.spec a).exec.command = none ∧ (env.spec a).exec.entry = none) := by
  rw [(exec_spec a).1, (exec_spec a).2]
  rintro ⟨hc, he⟩
  rw [Runs, hc, he] at hruns
  rcases hruns with h | h <;> cases h

theorem saveSpec_eq : st.dir.saveSpec (env.host a.2) (env.ids a.2) (env.spec a) =
    match env.write a with
    | .done => (st.dir.insert (env.ids a.2) (.spec (env.spec a)), .ok ())
    | .failed e => (st.dir, .error e)
    | .torn e => (st.dir.insert (env.ids a.2) .malformed, .error e) := rfl

theorem leaves_of_failed {e : String} (hid : env.ids a.2 ≠ "") (hruns : Runs a)
    (hw : env.write a = .failed e) : env.Leaves st a st.dir st.accepted false := by
  unfold Leaves
  simp only [applyOne, if_neg hid, if_neg hruns.spec, saveSpec_eq, hw]
  exact ⟨_, _, rfl, rfl, rfl, rfl⟩

theorem leaves_of_torn {e : String} (hid : env.ids a.2 ≠ "") (hruns : Runs a)
    (hw : env.write a = .torn e) :
    env.Leaves st a (st.dir.insert (env.ids a.2) .malformed) st.accepted false := by
  unfold Leaves
  simp only [applyOne, if_neg hid, if_neg hruns.spec, saveSpec_eq, hw]
  exact ⟨_, _, rfl, rfl, rfl, rfl⟩

theorem leaves_of_accepted (st : ApplyState)
    {client : Except Ipc.TransportError StartResponse} (hid : env.ids a.2 ≠ "") (hruns : Runs a)
    (hw : env.write a = .done) (ha : env.answer a = .accepted client) :
    env.Leaves st a (st.dir.insert (env.ids a.2) (.spec (env.spec a)))
      (st.accepted ++ [env.ids a.2]) client.isOk := by
  unfold Leaves
  simp only [applyOne, if_neg hid, if_neg hruns.spec, saveSpec_eq, hw, ha]
  cases client with
  | ok resp => exact ⟨_, _, rfl, rfl, rfl, rfl⟩
  | error e => exact ⟨_, _, rfl, rfl, rfl, rfl⟩

theorem leaves_of_rejected {code message : String} (hid : env.ids a.2 ≠ "") (hruns : Runs a)
    (hw : env.write a = .done) (ha : env.answer a = .rejected code message) :
    env.Leaves st a (st.dir.insert (env.ids a.2) (.spec (env.spec a))) st.accepted false := by
  unfold Leaves
  simp only [applyOne, if_neg hid, if_neg hruns.spec, saveSpec_eq, hw, ha]
  exact ⟨_, _, rfl, rfl, rfl, rfl⟩

end Cases

/-- The files that are new since `dir₀` belong to accepted apps. -/
def Owned (dir₀ : SpecDir) (st : ApplyState) : Prop :=
  ∀ k, k ∉ dir₀ → k ∈ st.dir → k ∈ st.accepted

section Owned

variable {st : ApplyState} {a : AppSpec × ℕ} {dir₀ : SpecDir} {l : List (AppSpec × ℕ)}

theorem owned_of_stops {dir : SpecDir} {accepted : List String}
    (h : env.Leaves st a dir accepted false) :
    Owned dir₀ (untilError env.applyOne st (a :: l)).1 ↔
      ∀ k, k ∉ dir₀ → k ∈ dir → k ∈ accepted := by
  obtain ⟨st', r, heq, rfl, rfl, hr⟩ := h
  cases r with
  | ok _ => cases hr
  | error e =>
      rw [untilError, heq]
      exact Iff.rfl

theorem not_owned_of_insert (hnew : env.ids a.2 ∉ dir₀)
    (hacc : env.ids a.2 ∉ st.accepted) {f : SpecFile}
    (h : env.Leaves st a (st.dir.insert (env.ids a.2) f) st.accepted false) :
    ¬ Owned dir₀ (untilError env.applyOne st (a :: l)).1 := by
  rw [owned_of_stops h]
  exact fun hall => hacc (hall _ hnew ((AList.mem_insert st.dir).mpr (.inl rfl)))

theorem Owned.insert (hst : Owned dir₀ st) {st' : ApplyState} {f : SpecFile} {id : String}
    (hdir : st'.dir = st.dir.insert id f) (hacc : st'.accepted = st.accepted ++ [id]) :
    Owned dir₀ st' := by
  intro k hk hmem
  rw [hdir, AList.mem_insert] at hmem
  rw [hacc, List.mem_append, List.mem_singleton]
  rcases hmem with rfl | hmem
  · exact .inr rfl
  · exact .inl (hst k hk hmem)

/-! The cases of `NoneLeft`, as those of `Leaves`. -/

theorem noneLeft_of_no_id (hid : env.ids a.2 = "") : env.NoneLeft (a :: l) :=
  ⟨fun hne => absurd hid hne, fun ha => absurd hid ha.1⟩

theorem noneLeft_of_failed {e : String} (hw : env.write a = .failed e) : env.NoneLeft (a :: l) := by
  have hdone : env.write a ≠ .done := by
    rw [hw]
    nofun
  have htorn : ∀ e, env.write a ≠ .torn e := by
    rw [hw]
    nofun
  exact ⟨fun _ => ⟨htorn, fun hd => absurd hd hdone⟩, fun ha => absurd ha.2.1 hdone⟩

theorem not_noneLeft_of_torn {e : String} (hid : env.ids a.2 ≠ "") (hw : env.write a = .torn e) :
    ¬ env.NoneLeft (a :: l) :=
  fun h => (h.1 hid).1 e hw

theorem not_noneLeft_of_rejected {code message : String} (hid : env.ids a.2 ≠ "")
    (hw : env.write a = .done) (ha : env.answer a = .rejected code message) :
    ¬ env.NoneLeft (a :: l) := by
  intro h
  obtain ⟨client, hc⟩ := (h.1 hid).2 hw
  rw [ha] at hc
  cases hc

/-- After an accepted app it is up to the rest, if the loop goes on. -/
theorem noneLeft_of_accepted {client : Except Ipc.TransportError StartResponse}
    (hid : env.ids a.2 ≠ "") (hw : env.write a = .done) (ha : env.answer a = .accepted client) :
    env.NoneLeft (a :: l) ↔ (client.isOk = true → env.NoneLeft l) := by
  have happ : env.Applied a ↔ client.isOk = true := by
    constructor
    · rintro ⟨-, -, resp, hresp⟩
      rw [ha] at hresp
      obtain rfl := DaemonReply.accepted.inj hresp
      rfl
    · intro hok
      obtain ⟨resp, rfl⟩ := exists_of_isOk hok
      exact ⟨hid, hw, resp, ha⟩
  have htorn : ∀ e, env.write a ≠ .torn e := by
    rw [hw]
    nofun
  rw [NoneLeft, happ]
  exact ⟨fun h => h.2, fun h => ⟨fun _ => ⟨htorn, fun _ => ⟨client, ha⟩⟩, h⟩⟩

/-- **The loop**, from a state whose new files are owned: they still are at the end exactly when no
app that is reached leaves one. -/
theorem owned_untilError_iff (hst : Owned dir₀ st) (hids : (l.map fun a => env.ids a.2).Nodup)
    (hnew : ∀ a ∈ l, env.ids a.2 ∉ dir₀ ∧ env.ids a.2 ∉ st.accepted) (hruns : ∀ a ∈ l, Runs a) :
    Owned dir₀ (untilError env.applyOne st l).1 ↔ env.NoneLeft l := by
  induction l generalizing st with
  | nil => exact ⟨fun _ => trivial, fun _ => hst⟩
  | cons a l ih =>
      obtain ⟨hfresh, hids⟩ := List.nodup_cons.mp hids
      obtain ⟨⟨hdir, hacc⟩, hnew⟩ := List.forall_mem_cons.mp hnew
      obtain ⟨hrun, hruns⟩ := List.forall_mem_cons.mp hruns
      by_cases hid : env.ids a.2 = ""
      · rw [owned_of_stops (leaves_of_no_id hid)]
        exact iff_of_true hst (noneLeft_of_no_id hid)
      · cases hw : env.write a with
        | failed e =>
            rw [owned_of_stops (leaves_of_failed hid hrun hw)]
            exact iff_of_true hst (noneLeft_of_failed hw)
        | torn e =>
            exact iff_of_false (not_owned_of_insert hdir hacc (leaves_of_torn hid hrun hw))
              (not_noneLeft_of_torn hid hw)
        | done =>
            cases ha : env.answer a with
            | rejected code message =>
                exact iff_of_false
                  (not_owned_of_insert hdir hacc (leaves_of_rejected hid hrun hw ha))
                  (not_noneLeft_of_rejected hid hw ha)
            | accepted client =>
                obtain ⟨st', r, heq, hdir', hacc', hr⟩ := leaves_of_accepted st hid hrun hw ha
                have hst' := hst.insert hdir' hacc'
                have hnew' : ∀ b ∈ l, env.ids b.2 ∉ dir₀ ∧ env.ids b.2 ∉ st'.accepted := by
                  intro b hb
                  refine ⟨(hnew b hb).1, ?_⟩
                  rw [hacc', List.mem_append, List.mem_singleton, not_or]
                  refine ⟨(hnew b hb).2, fun he => hfresh ?_⟩
                  exact List.mem_map.mpr ⟨b, hb, he⟩
                rw [noneLeft_of_accepted hid hw ha, ← hr, untilError, heq]
                cases r with
                | error e =>
                    refine iff_of_true hst' ?_
                    intro h
                    cases h
                | ok _ =>
                    simp only
                    rw [ih hst' hids hnew' hruns]
                    exact ⟨fun h _ => h, fun h => h rfl⟩

end Owned

theorem runs_of_localSpecs {args : List String} {specs : List AppSpec}
    (h : env.localSpecs args = .ok specs) : ∀ a ∈ specs.zipIdx, Runs a := by
  unfold localSpecs at h
  repeat' split at h
  all_goals try cases h
  rename_i specs' hspecs _ _
  intro a ha
  obtain ⟨s, hs, heq⟩ := List.mem_map.mp (List.fst_mem_of_mem_zipIdx ha)
  rw [Runs, ← heq]
  exact Manifest.toAppSpecs_exec hspecs s hs

/-- **The files of `apply`.** With new ids, every file that the command has created belongs to an
app that the daemon has accepted exactly when no app that is reached is rejected or has a save that
is cut off half way. -/
theorem applyRun_created_iff (env : ApplyHost) (dir : SpecDir) (args : List String)
    (specs : List AppSpec) (hspecs : env.localSpecs args = .ok specs)
    (hids : (specs.zipIdx.map fun a => env.ids a.2).Nodup)
    (hnew : ∀ a ∈ specs.zipIdx, env.ids a.2 ∉ dir) :
    (∀ k, k ∉ dir → k ∈ (env.applyRun dir args).1.dir → k ∈ (env.applyRun dir args).1.accepted) ↔
      env.NoneLeft specs.zipIdx := by
  have hinit : Owned dir { dir := dir } := fun k hk hmem => absurd hmem hk
  have hfresh : ∀ a ∈ specs.zipIdx, env.ids a.2 ∉ dir ∧ env.ids a.2 ∉ ([] : List String) :=
    fun a ha => ⟨hnew a ha, List.not_mem_nil⟩
  rw [applyRun, hspecs]
  exact owned_untilError_iff hinit hids hfresh (runs_of_localSpecs hspecs)

/-- A manifest with one app, and a daemon that always replies the same. -/
def demoApply (reply : DaemonReply) : ApplyHost where
  manifest := fun _ => .ok { apps := [{ name := "api", command := "sleep 30" }] }
  ids := fun _ => demoId
  now := fun _ => "2026-01-01T00:00:00Z"
  host := fun _ => userHost
  reply := fun _ _ => reply
  errText := fun _ => "json error"

/-- The spec of its app. -/
def demoAppSpec : AppSpec where
  version := 1
  id := ""
  name := "api"
  ns := some "default"
  exec := { kind := "command", command := some "sleep", args := some ["30"] }
  env := some .empty

/-- The daemon accepts the app, and the client cannot read its reply, as in
`Ipc.applyCall_startReply`. -/
def demoAccepting : ApplyHost :=
  demoApply (.accepted (.error (.json (.missingField "protocol_version"))))

theorem applyRun_created_accepted :
    (demoAccepting.applyRun ∅ ["unitpm.yml"]).1.accepted = [demoId] ∧
      ∀ k, k ∉ (∅ : SpecDir) → k ∈ (demoAccepting.applyRun ∅ ["unitpm.yml"]).1.dir →
        k ∈ (demoAccepting.applyRun ∅ ["unitpm.yml"]).1.accepted := by
  refine ⟨by decide +kernel, ?_⟩
  have hspecs : demoAccepting.localSpecs ["unitpm.yml"] = .ok [demoAppSpec] := by decide +kernel
  refine (applyRun_created_iff demoAccepting ∅ ["unitpm.yml"] [demoAppSpec] hspecs (by decide)
    fun _ _ => AList.notMem_empty _).mpr ?_
  refine ⟨fun _ => ⟨fun e he => (by cases he), fun _ => ⟨_, rfl⟩⟩, fun _ => trivial⟩

/-- The daemon rejects the app, and its file stays. -/
theorem apply_keeps_rejected :
    let env := demoApply (.rejected "ERR_INTERNAL" "spawn failed")
    let st := (env.applyRun ∅ ["unitpm.yml"]).1
    demoId ∉ (∅ : SpecDir) ∧ demoId ∈ st.dir ∧ demoId ∉ st.accepted := by
  refine ⟨by decide, by decide +kernel, by decide +kernel⟩

end ApplyHost

end Unitpm
