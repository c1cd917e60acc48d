import Unitpm.Service
import Unitpm.Wire

/-! # Envelopes and dispatch

`ipc/transport/server_dispatch`: a request is either a standard envelope, which `dispatch` hands to
the handler of its command, or the older envelope of `start`, which `dispatchStart` hands to the
handler of `start`.  `Ipc.call` is the other end, the part of `Client::call` that reads the reply.
Payloads are JSON trees (`RawMessage`), read by the shapes of `Wire`.

The handler of `start` reads a `StartRequest` and answers a `StartResponseData`.  `dispatchStart`
gives it the spec alone, so the two envelopes are served alike exactly when the request is refused
either way (`dispatchStart_agrees_iff`); and of its two clients `apply` reads the answer as a
`StartResponse`, which it never is (`startReply_not_decoded`). -/

namespace Unitpm

open Serde

namespace Ipc

/-! ### Envelopes -/

/-- `protocol::VERSION`. -/
def version : ℤ := 1

def statusError : String := "error"

def statusSuccess : String := "success"

/-- Structured error returned inside a `Response`. -/
structure Error where
  code : String
  message : String
  data : Option Json := none

/-- Standard IPC response envelope. -/
structure Response where
  version : ℤ := Ipc.version
  id : String
  status : String
  result : Option RawMessage := none
  error : Option Error := none

/-- What the client reads of a response that was sent. -/
def Response.sent (r : Response) : Response := { r with result := RawMessage.sent r.result }

/-- Union request type: the standard envelope, or a `start` payload. -/
structure UniversalRequest where
  kind : String := ""
  version : ℤ := 0
  id : String := ""
  command : String := ""
  params : Option RawMessage := none
  protocolVersion : ℤ := 0
  requestId : String := ""
  spec : Option RawMessage := none

/-- How the call of a handler ends. -/
inductive Outcome where
  | ok (raw : RawMessage)
  | err (e : String)
  | panicked

/-- A registered handler over the state `σ` of the daemon. -/
abbrev Handler (σ : Type) : Type := σ → Identity → RawMessage → σ × Outcome

/-- `HandlersSnapshot`. -/
abbrev Handlers (σ : Type) : Type := String → Option (Handler σ)

def mismatchMessage (received : ℤ) : String :=
  "Protocol mismatch: server v" ++ toString version ++ ", client v" ++ toString received

/-- `MismatchData`. -/
def mismatchData (received : ℤ) : Json :=
  toValue (.obj [("supported", .num version), ("received", .num received)])

/-! ### Dispatch -/

section Dispatch

variable {σ : Type} (handlers : Handlers σ) (d : σ) (identity : Identity)

/-- The reply to a request that failed. -/
def failure (id code message : String) (data : Option Json) : Response where
  id := id
  status := statusError
  error := some { code := code, message := message, data := data }

/-- `dispatch`. -/
def dispatch (univ : UniversalRequest) : σ × Response :=
  if univ.version ≠ version then
    (d, failure univ.id "PROTOCOL_MISMATCH" (mismatchMessage univ.version)
      (some (mismatchData univ.version)))
  else match handlers univ.command with
    | none => (d, failure univ.id "UNKNOWN_COMMAND" "Command not found" none)
    | some handler =>
        match handler d identity (univ.params.getD .empty) with
        | (d, .ok raw) => (d, { id := univ.id, status := statusSuccess, result := some raw })
        | (d, .err e) => (d, failure univ.id "INTERNAL_ERROR" e none)
        | (d, .panicked) => (d, failure univ.id "INTERNAL_ERROR" "handler panicked" none)

/-- The answer to a `start` payload that failed. -/
def startFailure (requestId code message : String) : StartResponse where
  protocolVersion := version
  kind := "start_result"
  requestId := requestId
  ok := false
  error := some { code := code, message := message }

/-- The answer to a `start` payload whose handler has returned. -/
def startAnswer (requestId : String) (appSpec : Except Serde.Error AppSpec) :
    Outcome → StartResponse
  | .err e => startFailure requestId "INTERNAL_ERROR" e
  | .panicked => startFailure requestId "INTERNAL_ERROR" "handler panicked"
  | .ok raw =>
      match appSpec with
      | .error _ => startFailure requestId "INTERNAL_ERROR" "Failed to decode spec"
      | .ok _ =>
          match raw.unmarshal StartResponseData.shape with
          | .error _ => startFailure requestId "INTERNAL_ERROR" "Failed to encode response data"
          | .ok data =>
              { protocolVersion := version
                kind := "start_result"
                requestId := requestId
                ok := true
                data := some data }

/-- `dispatch_start`. -/
def dispatchStart (univ : UniversalRequest) : σ × StartResponse :=
  if univ.protocolVersion ≠ version then
    (d, startFailure univ.requestId "PROTOCOL_MISMATCH" (mismatchMessage univ.protocolVersion))
  else match handlers "start" with
    | none => (d, startFailure univ.requestId "UNKNOWN_COMMAND" "Command start not found")
    | some handler =>
        let specBytes := univ.spec.getD .empty
        let appSpec := specBytes.unmarshal AppSpec.shape
        match handler d identity specBytes with
        | (d, outcome) => (d, startAnswer univ.requestId appSpec outcome)

end Dispatch

/-! ### The handler of `start` -/

end Ipc

/-- `ProcessState::as_str`. -/
def ProcessState.asStr : ProcessState → String
  | .running => "running"
  | .online => "online"
  | .stopped => "stopped"
  | .failed => "failed"
  | .exited => "exited"
  | .restarting => "restarting"

/-- `as i32`. -/
def asI32 (n : ℕ) : ℤ := Int.bmod n (2 ^ 32)

namespace Ipc

/-- What the handler of `start` answers for a started process. -/
def startData (info : ProcessInfo) : StartResponseData where
  id := info.id
  procId := some info.id
  pid := some (asI32 info.pid)
  status := some info.state.asStr

/-- `start_handler`; `errText` is the text of a decoding error. -/
def startHandler (h : Host) (privileged : Bool) (errText : Serde.Error → String) :
    Handler Daemon := fun d identity params =>
  match params.unmarshal StartRequest.shape with
  | .error e => (d, .err ("ERR_BAD_REQUEST: " ++ errText e))
  | .ok req =>
      if req.spec.id = "" then (d, .err "ERR_BAD_REQUEST: spec ID is required")
      else match d.startProcess h privileged identity req.spec with
        | (d, .error e) => (d, .err e)
        | (d, .ok info) => (d, .ok (.marshal StartResponseData.shape (startData info)))

/-! ### The client -/

/-- Errors of a call. -/
inductive TransportError where
  | io (e : String)
  | json (e : Serde.Error)
  | idMismatch (got want : String)
  | remote (code message : String) (data : Option Json)

/-- What the client gets for a request it has sent, or failed to send. -/
inductive Reply where
  | failed (e : String)
  | closed
  | unreadable (e : Serde.Error)
  | response (r : Response)

/-- `Client::call` from the reply on; `target` is what the caller passes as `result`. -/
def call {ρ : Type} (c : Shape ρ) (target : ρ) (reqId : String) : Reply → Except TransportError ρ
  | .failed e => .error (.io e)
  | .closed => .error (.io "connection closed by server")
  | .unreadable e => .error (.json e)
  | .response resp =>
      if resp.id ≠ reqId then .error (.idMismatch resp.id reqId)
      else if resp.status = statusError then
        match resp.error with
        | some e => .error (.remote e.code e.message e.data)
        | none => .error (.remote "UNKNOWN" "unknown ipc error" none)
      else match resp.result with
        | none => .ok target
        | some raw =>
            match raw.unmarshal c with
            | .error e => .error (.json e)
            | .ok r => .ok r

/-- `StartOps::start` of the client. -/
def startCall : String → Reply → Except TransportError StartResponseData :=
  call StartResponseData.shape { id := "" }

/-- `Ipc::start` of the client, as `apply` calls it. -/
def applyCall : String → Reply → Except TransportError StartResponse :=
  call StartResponse.shape { protocolVersion := 0, kind := "", requestId := "", ok := false }

/-! ### What the two dispatchers do with a start -/

variable {h : Host} {privileged : Bool} {errText : Serde.Error → String}
  {handlers : Handlers Daemon} {d : Daemon} {identity : Identity} {univ : UniversalRequest}
  {s : AppSpec} {req : StartRequest} {params : RawMessage}

theorem unmarshal_startRequest_of_appSpec {f : Json → Json} (hf : Rearranges f) (s : AppSpec) :
    RawMessage.unmarshal StartRequest.shape (.json (f (AppSpec.shape.encode s))) =
      .error (.missingField "protocol_version") :=
  Record.decode_of_disjoint_names (R := StartRequest.record) (S := AppSpec.record)
    (by decide) (by decide) hf s

theorem unmarshal_startResponse_of_data {f : Json → Json} (hf : Rearranges f)
    (data : StartResponseData) :
    RawMessage.unmarshal StartResponse.shape (.json (f (StartResponseData.shape.encode data))) =
      .error (.missingField "protocol_version") :=
  Record.decode_of_disjoint_names (R := StartResponse.record) (S := StartResponseData.record)
    (by decide) (by decide) hf data

theorem asI32_bounds (n : ℕ) : -2147483648 ≤ asI32 n ∧ asI32 n < 2147483648 := by
  have hlow := Int.le_bmod (x := n) (m := 2 ^ 32) (by decide)
  have hhigh := Int.bmod_lt (x := n) (m := 2 ^ 32) (by decide)
  unfold asI32
  omega

theorem valid_startData (info : ProcessInfo) : StartResponseData.shape.Valid (startData info) := by
  change StartResponseData.record.Valid (startData info)
  simpa [StartResponseData.record, startData, Serde.string, i32, signed]
    using asI32_bounds info.pid

theorem startHandler_of_refused (errText : Serde.Error → String)
    (hreq : RawMessage.unmarshal StartRequest.shape params = .ok req)
    (hn : ¬ d.CanHandle h privileged identity req.spec) :
    ∃ e, startHandler h privileged errText d identity params = (d, .err e) := by
  unfold startHandler
  rw [hreq]
  by_cases hid : req.spec.id = ""
  · simp only [if_pos hid]
    exact ⟨_, rfl⟩
  · obtain ⟨e, he⟩ := Daemon.startProcess_of_not_canStart fun t ht hc => hn ⟨hid, t, ht, hc⟩
    simp only [if_neg hid, he]
    exact ⟨_, rfl⟩

theorem startHandler_of_started (errText : Serde.Error → String) {d' : Daemon}
    {info : ProcessInfo}
    (hreq : RawMessage.unmarshal StartRequest.shape params = .ok req) (hid : req.spec.id ≠ "")
    (hstart : d.startProcess h privileged identity req.spec = (d', .ok info)) :
    startHandler h privileged errText d identity params =
      (d', .ok (.marshal StartResponseData.shape (startData info))) := by
  simp only [startHandler, hreq, if_neg hid, hstart]

/-- The reply to a granted start. -/
def startReply (id : String) (info : ProcessInfo) : Response where
  id := id
  status := statusSuccess
  result := some (.marshal StartResponseData.shape (startData info))

theorem dispatch_of_started (hreg : handlers "start" = some (startHandler h privileged errText))
    (hversion : univ.version = version) (hcommand : univ.command = "start")
    (hreq : RawMessage.unmarshal StartRequest.shape (univ.params.getD .empty) = .ok req)
    (hid : req.spec.id ≠ "") {d' : Daemon} {info : ProcessInfo}
    (hstart : d.startProcess h privileged identity req.spec = (d', .ok info)) :
    dispatch handlers d identity univ = (d', startReply univ.id info) := by
  simp only [dispatch, hversion, ne_eq, not_true_eq_false, if_false, hcommand, hreg,
    startHandler_of_started errText hreq hid hstart]
  rfl

/-! ### The two envelopes of a start -/

/-- The envelope `{type: start, spec: s}`, with the members of `s` in some order. -/
structure LegacyStart (univ : UniversalRequest) (s : AppSpec) : Prop where
  kind : univ.kind = "start"
  spec : ∃ f, Rearranges f ∧ univ.spec = some (.json (f (AppSpec.shape.encode s)))

/-- The envelope `{command: start, params}` whose parameters are a start request that carries
`s`. -/
structure StandardStart (univ : UniversalRequest) (s : AppSpec) : Prop where
  command : univ.command = "start"
  params : ∃ req f, Rearranges f ∧ StartRequest.shape.Valid req ∧ req.spec = s ∧
    univ.params = some (.json (f (StartRequest.shape.encode req)))

theorem dispatchStart_of_legacy
    (hreg : handlers "start" = some (startHandler h privileged errText))
    (hlegacy : LegacyStart univ s) (d : Daemon) (identity : Identity) :
    ∃ code message, dispatchStart handlers d identity univ =
      (d, startFailure univ.requestId code message) := by
  obtain ⟨f, hf, hspec⟩ := hlegacy.spec
  unfold dispatchStart
  split_ifs with hversion
  · exact ⟨_, _, rfl⟩
  · simp only [hreg, hspec, Option.getD_some, startHandler,
      unmarshal_startRequest_of_appSpec hf s]
    exact ⟨_, _, rfl⟩

theorem StandardStart.unmarshal (hstandard : StandardStart univ s) :
    ∃ req, RawMessage.unmarshal StartRequest.shape (univ.params.getD .empty) = .ok req ∧
      req.spec = s := by
  obtain ⟨req, f, hf, hvalid, hs, hparams⟩ := hstandard.params
  refine ⟨req, ?_, hs⟩
  rw [hparams]
  exact StartRequest.shape.decode_rearranged hf hvalid

theorem dispatch_of_refused (hreg : handlers "start" = some (startHandler h privileged errText))
    (hstandard : StandardStart univ s)
    (hn : univ.version ≠ version ∨ ¬ d.CanHandle h privileged identity s) :
    ∃ code message data, dispatch handlers d identity univ =
      (d, failure univ.id code message data) := by
  unfold dispatch
  split_ifs with hversion
  · exact ⟨_, _, _, rfl⟩
  · obtain ⟨req, hreq, rfl⟩ := hstandard.unmarshal
    obtain ⟨e, he⟩ := startHandler_of_refused errText hreq (hn.resolve_left hversion)
    simp only [hstandard.command, hreg, he]
    exact ⟨_, _, _, rfl⟩

theorem dispatch_of_granted (hreg : handlers "start" = some (startHandler h privileged errText))
    (hstandard : StandardStart univ s) (hversion : univ.version = version)
    (hc : d.CanHandle h privileged identity s) :
    ∃ d' info, dispatch handlers d identity univ = (d', startReply univ.id info) := by
  obtain ⟨req, hreq, rfl⟩ := hstandard.unmarshal
  obtain ⟨hid, t, ht, hc⟩ := hc
  obtain ⟨info, hinfo⟩ := Daemon.startProcess_of_canStart ht hc
  exact ⟨_, info, dispatch_of_started hreg hversion hstandard.command hreq hid hinfo⟩

/-- The two replies agree: the daemon is the same, both report the same process or both a failure,
and neither reports a failure for a process that was started. -/
structure Agree (d : Daemon) (legacy : Daemon × StartResponse) (standard : Daemon × Response) :
    Prop where
  effect : legacy.1 = standard.1
  outcome :
    (∃ data raw data', legacy.2.ok = true ∧ legacy.2.data = some data ∧
      standard.2.status = statusSuccess ∧ standard.2.result = some raw ∧
      raw.unmarshal StartResponseData.shape = .ok data' ∧ data.id = data'.id ∧
      data.pid = data'.pid) ∨
    (legacy.2.ok = false ∧ standard.2.status = statusError)
  legacy_started : legacy.1 ≠ d → legacy.2.ok = true
  standard_started : standard.1 ≠ d → standard.2.status = statusSuccess

/-- **The two envelopes of a start** are served alike exactly when neither can succeed: they state
another version of the protocol, or the daemon refuses the spec. -/
theorem dispatchStart_agrees_iff (h : Host) (privileged : Bool) (errText : Serde.Error → String)
    (handlers : Handlers Daemon) (d : Daemon) (identity : Identity) (s : AppSpec)
    (legacy standard : UniversalRequest)
    (hreg : handlers "start" = some (startHandler h privileged errText))
    (hlegacy : LegacyStart legacy s) (hstandard : StandardStart standard s) :
    Agree d (dispatchStart handlers d identity legacy) (dispatch handlers d identity standard) ↔
      standard.version ≠ version ∨ ¬ d.CanHandle h privileged identity s := by
  obtain ⟨code, message, hfail⟩ := dispatchStart_of_legacy hreg hlegacy d identity
  rw [hfail]
  constructor
  · intro hagree
    by_contra hgranted
    rw [not_or, not_not, not_not] at hgranted
    obtain ⟨d', info, hok⟩ := dispatch_of_granted hreg hstandard hgranted.1 hgranted.2
    rw [hok] at hagree
    rcases hagree.outcome with ⟨data, raw', data', hlegacyOk, -⟩ | ⟨-, hstatus⟩
    · cases hlegacyOk
    · exact absurd (show statusSuccess = statusError from hstatus) (by decide)
  · intro hn
    obtain ⟨code', message', data, hrefused⟩ := dispatch_of_refused hreg hstandard hn
    rw [hrefused]
    exact ⟨rfl, .inr ⟨rfl, rfl⟩, fun hne => absurd rfl hne, fun hne => absurd rfl hne⟩

/-- A user's daemon with the one handler. -/
def demoHandlers : Handlers Daemon := fun command =>
  if command = "start" then some (startHandler userHost false fun _ => "json error") else none

/-- The start request of a plain command. -/
def demoRequest : StartRequest where
  protocolVersion := 1
  requestId := "r"
  kind := "start"
  spec := plainSpec demoId

def demoLegacy : UniversalRequest where
  kind := "start"
  protocolVersion := 1
  requestId := "r"
  spec := some (.marshal AppSpec.shape (plainSpec demoId))

def demoStandard : UniversalRequest where
  version := 1
  id := "r"
  command := "start"
  params := some (.marshal StartRequest.shape demoRequest)

theorem demoLegacy_legacyStart : LegacyStart demoLegacy (plainSpec demoId) :=
  ⟨rfl, fun j => j, Rearranges.refl, rfl⟩

theorem valid_demoRequest : StartRequest.shape.Valid demoRequest := by
  change StartRequest.record.Valid demoRequest
  simp [StartRequest.record, demoRequest, Serde.string, i32, signed, AppSpec.shape,
    Record.shape, AppSpec.record, plainSpec, AppExec.shape, AppExec.record, vec]

theorem demoStandard_standardStart : StandardStart demoStandard (plainSpec demoId) :=
  ⟨rfl, demoRequest, fun j => j, Rearranges.refl, valid_demoRequest, rfl, rfl⟩

theorem dispatchStart_agrees_plain :
    Agree {} (dispatchStart demoHandlers {} ⟨"1000"⟩ demoLegacy)
        (dispatch demoHandlers {} ⟨"1000"⟩ demoStandard) ↔
      demoStandard.version ≠ version ∨
        ¬ ({} : Daemon).CanHandle userHost false ⟨"1000"⟩ (plainSpec demoId) :=
  dispatchStart_agrees_iff userHost false (fun _ => "json error") demoHandlers {} ⟨"1000"⟩
    (plainSpec demoId) demoLegacy demoStandard rfl demoLegacy_legacyStart
    demoStandard_standardStart

/-- The same spec is started through the standard envelope and refused in the older one. -/
theorem dispatchStart_refuses_plain :
    (dispatchStart demoHandlers {} ⟨"1000"⟩ demoLegacy).2.ok = false ∧
      (dispatchStart demoHandlers {} ⟨"1000"⟩ demoLegacy).1.os.live.length = 0 ∧
      (dispatch demoHandlers {} ⟨"1000"⟩ demoStandard).2.status = statusSuccess ∧
      (dispatch demoHandlers {} ⟨"1000"⟩ demoStandard).1.os.live.length = 1 ∧
      ¬ Agree {} (dispatchStart demoHandlers {} ⟨"1000"⟩ demoLegacy)
        (dispatch demoHandlers {} ⟨"1000"⟩ demoStandard) := by
  have hlegacy : (dispatchStart demoHandlers {} ⟨"1000"⟩ demoLegacy).1.os.live.length = 0 := by
    decide +kernel
  have hstandard : (dispatch demoHandlers {} ⟨"1000"⟩ demoStandard).1.os.live.length = 1 := by
    decide +kernel
  refine ⟨by decide +kernel, hlegacy, by decide +kernel, hstandard, fun hagree => ?_⟩
  rw [hagree.effect, hstandard] at hlegacy
  cases hlegacy

/-! ### The reply to a start -/

/-- The `start` command reads the id and the pid of the process out of a reply. -/
def StartDecodes (reqId : String) (resp : Response) (info : ProcessInfo) : Prop :=
  ∃ data, startCall reqId (.response resp.sent) = .ok data ∧ data.id = info.id ∧
    data.pid = some (asI32 info.pid)

/-- The `apply` command does. -/
def ApplyDecodes (reqId : String) (resp : Response) (info : ProcessInfo) : Prop :=
  ∃ r data, applyCall reqId (.response resp.sent) = .ok r ∧ r.data = some data ∧
    data.id = info.id ∧ data.pid = some (asI32 info.pid)

theorem call_startReply {ρ : Type} (c : Shape ρ) (target : ρ) (id : String) (info : ProcessInfo) :
    call c target id (.response (startReply id info).sent) =
      match c.decode (toValue (toValue (StartResponseData.shape.encode (startData info)))) with
      | .error e => .error (.json e)
      | .ok r => .ok r := by
  have hstatus : statusSuccess ≠ statusError := by decide
  simp only [call, startReply, Response.sent, RawMessage.sent_marshal, RawMessage.unmarshal,
    ne_eq, not_true_eq_false, if_false, if_neg hstatus]

theorem startDecodes_startReply (id : String) (info : ProcessInfo) :
    StartDecodes id (startReply id info) info := by
  refine ⟨startData info, ?_, rfl, rfl⟩
  rw [startCall, call_startReply, StartResponseData.shape.decode_rearranged
    (rearranges_toValue.comp rearranges_toValue) (valid_startData info)]

theorem applyCall_startReply (id : String) (info : ProcessInfo) :
    applyCall id (.response (startReply id info).sent) =
      .error (.json (.missingField "protocol_version")) := by
  have hdecode := unmarshal_startResponse_of_data (rearranges_toValue.comp rearranges_toValue)
    (startData info)
  rw [RawMessage.unmarshal] at hdecode
  rw [applyCall, call_startReply, hdecode]

/-- **The reply to a start**: for every process the handler starts, the `start` command reads the
reply and `apply` does not, so never both. -/
theorem startReply_not_decoded (h : Host) (privileged : Bool) (errText : Serde.Error → String)
    (handlers : Handlers Daemon) (d d' : Daemon) (identity : Identity) (univ : UniversalRequest)
    (req : StartRequest) (info : ProcessInfo)
    (hreg : handlers "start" = some (startHandler h privileged errText))
    (hversion : univ.version = version) (hcommand : univ.command = "start")
    (hreq : RawMessage.unmarshal StartRequest.shape (univ.params.getD .empty) = .ok req)
    (hid : req.spec.id ≠ "")
    (hstart : d.startProcess h privileged identity req.spec = (d', .ok info)) :
    StartDecodes univ.id (dispatch handlers d identity univ).2 info ∧
      ¬ (StartDecodes univ.id (dispatch handlers d identity univ).2 info ∧
        ApplyDecodes univ.id (dispatch handlers d identity univ).2 info) := by
  rw [dispatch_of_started hreg hversion hcommand hreq hid hstart]
  refine ⟨startDecodes_startReply univ.id info, ?_⟩
  rintro ⟨-, r, data, hr, -⟩
  rw [applyCall_startReply] at hr
  cases hr

theorem unmarshal_demoStandard :
    RawMessage.unmarshal StartRequest.shape (demoStandard.params.getD .empty) = .ok demoRequest :=
  StartRequest.shape.decode_encode valid_demoRequest

theorem exists_demoInfo : ∃ d' info,
    ({} : Daemon).startProcess userHost false ⟨"1000"⟩ demoRequest.spec = (d', .ok info) := by
  obtain ⟨info, hinfo⟩ := exists_of_isOk
    (x := (({} : Daemon).startProcess userHost false ⟨"1000"⟩ demoRequest.spec).2)
    (by decide +kernel)
  exact ⟨_, info, Prod.ext rfl hinfo⟩

theorem startReply_not_decoded_plain : ∃ info,
    StartDecodes "r" (dispatch demoHandlers {} ⟨"1000"⟩ demoStandard).2 info ∧
      ¬ (StartDecodes "r" (dispatch demoHandlers {} ⟨"1000"⟩ demoStandard).2 info ∧
        ApplyDecodes "r" (dispatch demoHandlers {} ⟨"1000"⟩ demoStandard).2 info) := by
  obtain ⟨d', info, hstart⟩ := exists_demoInfo
  exact ⟨info, startReply_not_decoded userHost false (fun _ => "json error") demoHandlers {} d'
    ⟨"1000"⟩ demoStandard demoRequest info rfl rfl rfl unmarshal_demoStandard (by decide) hstart⟩

/-- `apply` on the reply to the start of a plain command. -/
theorem applyCall_plain_fails : ∃ d' info,
    ({} : Daemon).startProcess userHost false ⟨"1000"⟩ (plainSpec demoId) = (d', .ok info) ∧
    applyCall "r" (.response (dispatch demoHandlers {} ⟨"1000"⟩ demoStandard).2.sent) =
      .error (.json (.missingField "protocol_version")) := by
  obtain ⟨d', info, hstart⟩ := exists_demoInfo
  have hreply : dispatch demoHandlers {} ⟨"1000"⟩ demoStandard = (d', startReply "r" info) :=
    dispatch_of_started rfl rfl rfl unmarshal_demoStandard (by decide) hstart
  refine ⟨d', info, hstart, ?_⟩
  rw [hreply]
  exact applyCall_startReply "r" info

end Ipc

end Unitpm
