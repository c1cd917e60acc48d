import Unitpm.Dispatch
import Unitpm.Lib.Run
import Unitpm.Lib.Utf8
import Unitpm.ServerLoop

/-! # One connection, from its first request to its last

`handle_connection` of `internal/ipc/transport/server_loop.rs`: lines are read off the stream, each
is decoded, passes the rate limiter of the peer's uid and is dispatched, and the response is written
as one line.  The rate limiter and the state the handlers work on are shared with other
connections; `allow n` is its decision on the `n`-th request, and `others n` what has been done to
the state before it.  The texts of JSON values are left to `marshal`, and how a line is read as a
request to `unmarshal`.

`connection_answers_iff`: when every request gets its own line with its own correlation id. -/

namespace Unitpm

/-- `Serialize for RawMessage`, where `serde_json` reads its bytes, or there are none. -/
def RawMessage.toJson : RawMessage → Json
  | .empty => .null
  | .json j => Serde.toValue j

namespace Ipc

open Frames Run

/-! ### Replies -/

def Error.toJson (e : Error) : Json :=
  .obj ([("code", .str e.code), ("message", .str e.message)] ++
    (e.data.map fun data => ("data", data)).toList)

/-- The tree of a response; members that are `None` are left out. -/
def Response.toJson (r : Response) : Json :=
  .obj ([("version", .num r.version), ("id", .str r.id), ("status", .str r.status)] ++
    (r.result.map fun m => ("result", m.toJson)).toList ++
    (r.error.map fun e => ("error", e.toJson)).toList)

/-- The member of a name. -/
def member (k : String) : Json → Option Json
  | .obj l => l.lookup k
  | _ => none

/-- The reply carries the correlation id of the request. -/
def Answers (univ : UniversalRequest) (reply : Json) : Prop :=
  if univ.kind = "start" then
    member "type" reply = some (.str "start_result") ∧
      member "request_id" reply = some (.str univ.requestId)
  else member "id" reply = some (.str univ.id)

/-! ### Requests -/

/-- How the call of a handler ends, with the bytes it returns as they are.  `notJson` is bytes that
`serde_json` does not read: no JSON text, one nested deeper than 127, or a number out of range. -/
inductive CallResult where
  | ok (raw : RawMessage)
  | notJson
  | err (e : String)
  | panicked

/-- What the dispatchers make of it.  `dispatch_start` treats bytes that are not read like no
bytes. -/
def CallResult.outcome : CallResult → Outcome
  | .ok raw => .ok raw
  | .notJson => .ok .empty
  | .err e => .err e
  | .panicked => .panicked

section Connection

variable {σ : Type}

/-- The registered handlers. -/
abbrev RawHandlers (σ : Type) : Type :=
  String → Option (σ → Identity → RawMessage → σ × CallResult)

def outcomes (handlers : RawHandlers σ) : Handlers σ := fun command =>
  (handlers command).map fun handler d identity params =>
    ((handler d identity params).1, (handler d identity params).2.outcome)

variable (handlers : RawHandlers σ) (identity : Identity) (allow : ℕ → Bool)
  (others : ℕ → σ → σ)

/-- A standard request whose handler returns bytes that are not read: the response cannot be
written. -/
def unwritable (d : σ) (univ : UniversalRequest) : Bool :=
  univ.version = version &&
    match handlers univ.command with
    | none => false
    | some handler =>
        match (handler d identity (univ.params.getD .empty)).2 with
        | .notJson => true
        | _ => false

/-- The limiter is asked if the uid is a number, and refuses. -/
def rateLimited (n : ℕ) : Bool :=
  (Rust.Str.parseUnsigned (2 ^ 32 - 1) identity.uid.toList).isSome && !allow n

/-- What `send_error` writes. -/
def errorReply (id code message : String) : Json := (failure id code message none).toJson

/-- The body of the loop for a request; without a reply the connection is closed. -/
def serve (n : ℕ) (d : σ) (univ : UniversalRequest) : σ × Option Json :=
  let d := others n d
  if rateLimited identity allow n then
    (d, some (errorReply univ.id "ERR_RATE_LIMIT" "IPC rate limit exceeded for this UID"))
  else if univ.kind = "start" then
    match dispatchStart (outcomes handlers) d identity univ with
    | (d, resp) => (d, some (StartResponse.shape.encode resp))
  else
    match dispatch (outcomes handlers) d identity univ with
    | (d', resp) => (d', if unwritable handlers identity d univ then none else some resp.toJson)

variable (unmarshal : List UInt8 → Option UniversalRequest)

/-- The loop of `handle_connection` over what `read_line` returns: the replies, in order. -/
def replies (n : ℕ) (d : σ) : List (Except ReadError (Option (List UInt8))) → List Json
  | [] => []
  | result :: results =>
      match result with
      | .error .tooLong => [errorReply "" "ERR_LIMITS" "Message too large"]
      | .ok none => []
      | .ok (some line) =>
          match unmarshal line with
          | none => [errorReply "" "ERR_BAD_REQUEST" "Invalid JSON"]
          | some univ =>
              match serve handlers identity allow others n d univ with
              | (_, none) => []
              | (d, some reply) => reply :: replies (n + 1) d results

/-- `handle_connection` on a stream that arrives in pieces: `read_line` is called until the end of
the stream, or an error. -/
def handleConnection (d : σ) (stream : List UInt8) (size : ℕ → ℕ) : List Json :=
  replies handlers identity allow others unmarshal 0 d
    (readLines ((frames newline stream).length + 1) { rest := stream, size := size })

/-- The bytes that are written for replies. -/
def written (marshal : Json → List UInt8) (rs : List Json) : List UInt8 :=
  rs.flatMap fun r => marshal r ++ [newline]

/-! ### One request -/

/-- What the condition of the theorem asks of a request, given its number and the state: a start is
not rate limited, and a standard request that is dispatched is answered in JSON. -/
def Served (s : ℕ × σ) (univ : UniversalRequest) : Prop :=
  (univ.kind = "start" → rateLimited identity allow s.1 = false) ∧
    (univ.kind ≠ "start" → rateLimited identity allow s.1 = false →
      unwritable handlers identity (others s.1 s.2) univ = false)

/-- The number and the state at the next request. -/
def next (s : ℕ × σ) (univ : UniversalRequest) : ℕ × σ :=
  (s.1 + 1, (serve handlers identity allow others s.1 s.2 univ).1)

variable {handlers identity allow others unmarshal}

theorem dispatch_id (identity : Identity) (handlers : Handlers σ) (d : σ)
    (univ : UniversalRequest) :
    (dispatch handlers d identity univ).2.id = univ.id := by
  unfold dispatch
  split_ifs
  · rfl
  · split
    · rfl
    · split <;> rfl

theorem startAnswer_ids (requestId : String) (appSpec : Except Serde.Error AppSpec)
    (o : Outcome) : (startAnswer requestId appSpec o).kind = "start_result" ∧
      (startAnswer requestId appSpec o).requestId = requestId := by
  unfold startAnswer
  cases o with
  | err e => exact ⟨rfl, rfl⟩
  | panicked => exact ⟨rfl, rfl⟩
  | ok raw =>
      cases appSpec with
      | error e => exact ⟨rfl, rfl⟩
      | ok s =>
          simp only
          split <;> exact ⟨rfl, rfl⟩

theorem dispatchStart_ids (identity : Identity) (handlers : Handlers σ) (d : σ)
    (univ : UniversalRequest) :
    (dispatchStart handlers d identity univ).2.kind = "start_result" ∧
      (dispatchStart handlers d identity univ).2.requestId = univ.requestId := by
  unfold dispatchStart
  split_ifs
  · exact ⟨rfl, rfl⟩
  · split
    · exact ⟨rfl, rfl⟩
    · exact startAnswer_ids ..

theorem member_response (r : Response) :
    member "id" r.toJson = some (.str r.id) ∧ member "type" r.toJson = none := by
  constructor
  · rfl
  · unfold Response.toJson member
    cases r.result <;> cases r.error <;> rfl

theorem member_startResponse (r : StartResponse) :
    member "type" (StartResponse.shape.encode r) = some (.str r.kind) ∧
      member "request_id" (StartResponse.shape.encode r) = some (.str r.requestId) := by
  constructor <;> rfl

/-- **One request**: it is answered under its own id exactly if it is served. -/
theorem serve_answers_iff (n : ℕ) (d : σ) (univ : UniversalRequest) :
    (∃ r, (serve handlers identity allow others n d univ).2 = some r ∧ Answers univ r) ↔
      Served handlers identity allow others (n, d) univ := by
  unfold serve Served Answers
  cases hlim : rateLimited identity allow n with
  | true =>
      have hm := member_response (failure univ.id "ERR_RATE_LIMIT"
        "IPC rate limit exceeded for this UID" none)
      simp only [errorReply, if_true, Option.some.injEq, exists_eq_left', hm]
      by_cases hk : univ.kind = "start"
      · simp [hk]
      · simp [hk, failure]
  | false =>
      simp only [Bool.false_eq_true, if_false]
      by_cases hk : univ.kind = "start"
      · obtain ⟨hkind, hid⟩ := dispatchStart_ids identity (outcomes handlers) (others n d) univ
        obtain ⟨htype, hreq⟩ := member_startResponse
          (dispatchStart (outcomes handlers) (others n d) identity univ).2
        simp [hk, htype, hreq, hkind, hid]
      · have hid := dispatch_id identity (outcomes handlers) (others n d) univ
        obtain ⟨hm, -⟩ := member_response
          (dispatch (outcomes handlers) (others n d) identity univ).2
        cases hw : unwritable handlers identity (others n d) univ with
        | true => simp [hk]
        | false => simp [hk, hm, hid]

/-! ### All requests -/

theorem replies_request {line : List UInt8} {univ : UniversalRequest}
    (hline : unmarshal line = some univ) (n : ℕ) (d : σ)
    (results : List (Except ReadError (Option (List UInt8)))) :
    replies handlers identity allow others unmarshal n d (.ok (some line) :: results) =
      match serve handlers identity allow others n d univ with
      | (_, none) => []
      | (d, some reply) =>
          reply :: replies handlers identity allow others unmarshal (n + 1) d results := by
  conv_lhs => whnf
  rw [hline]

theorem replies_answer_iff {lines : List (List UInt8)} {reqs : List UniversalRequest}
    (hreqs : lines.map unmarshal = reqs.map some) (n : ℕ) (d : σ) :
    List.Forall₂ Answers reqs (replies handlers identity allow others unmarshal n d
        (lines.map (fun l => .ok (some l)) ++ [.ok none])) ↔
      Along (next handlers identity allow others) (Served handlers identity allow others) (n, d)
        reqs := by
  induction reqs generalizing lines n d with
  | nil =>
      obtain rfl := List.map_eq_nil_iff.mp hreqs
      exact iff_of_true .nil trivial
  | cons univ reqs ih =>
      obtain ⟨line, lines, rfl, hline, hlines⟩ := List.map_eq_cons_iff.mp hreqs
      rw [Along, ← serve_answers_iff, List.map_cons, List.cons_append, replies_request hline]
      simp only [next]
      cases hs : serve handlers identity allow others n d univ with
      | mk d' reply =>
          cases reply with
          | none => simp
          | some r => simp [ih hlines]

theorem frameResults_of_fit {fs : List (List UInt8)} (h : ∀ f ∈ fs, f.length ≤ maxMsgSize + 1) :
    frameResults (fs.length + 1) fs = fs.map (fun f => .ok (some f)) ++ [.ok none] := by
  have happend := frameResults_append h [] 1
  rwa [List.append_nil] at happend

end Connection

/-- **Correlation.**  For every stream of requests: one line is written for each request, in order,
with the request's own id, exactly if no start request is rate limited and every standard request
that is dispatched is answered in JSON. -/
theorem connection_answers_iff {σ : Type} (handlers : RawHandlers σ) (identity : Identity)
    (allow : ℕ → Bool) (others : ℕ → σ → σ) (unmarshal : List UInt8 → Option UniversalRequest)
    (marshal : Json → List UInt8) (d : σ) (stream : List UInt8) (size : ℕ → ℕ)
    (reqs : List UniversalRequest)
    (hreqs : (frames newline stream).map unmarshal = reqs.map some)
    (hfit : ∀ f ∈ frames newline stream, f.length ≤ maxMsgSize + 1)
    (hmarshal : ∀ j, newline ∉ marshal j) :
    (frames newline (written marshal
          (handleConnection handlers identity allow others unmarshal d stream size)) =
        (handleConnection handlers identity allow others unmarshal d stream size).map
          (fun r => marshal r ++ [newline]) ∧
      List.Forall₂ Answers reqs
        (handleConnection handlers identity allow others unmarshal d stream size)) ↔
      Along (next handlers identity allow others) (Served handlers identity allow others) (0, d)
        reqs := by
  have hlines : ∀ rs : List Json,
      frames newline (written marshal rs) = rs.map fun r => marshal r ++ [newline] := by
    intro rs
    have hnl : ∀ l ∈ rs.map marshal, newline ∉ l := by simpa using fun r _ => hmarshal r
    have hf := frames_flatMap hnl
    rw [List.flatMap_map, List.map_map] at hf
    exact hf
  rw [and_iff_right (hlines _), handleConnection, (readLine_frames stream size _).1,
    frameResults_of_fit hfit]
  exact replies_answer_iff hreqs 0 d

/-- A start, which `"r1"` correlates, and a standard request. -/
def startLine : List UInt8 :=
  Utf8.encode "\x7b\"type\":\"start\",\"protocol_version\":1,\"request_id\":\"r1\"\x7d\n".toList

def pingLine : List UInt8 :=
  Utf8.encode "\x7b\"version\":1,\"id\":\"7\",\"command\":\"ping\"\x7d\n".toList

def startEnvelope : UniversalRequest where
  kind := "start"
  protocolVersion := 1
  requestId := "r1"

def pingEnvelope : UniversalRequest where
  version := 1
  id := "7"
  command := "ping"

/-- The two lines as requests. -/
def readEnvelope (line : List UInt8) : Option UniversalRequest :=
  [(startLine, startEnvelope), (pingLine, pingEnvelope)].lookup line

/-- The text of a value, as it stands between two line breaks. -/
def lineText (j : Json) : List UInt8 := (Utf8.encode j.write).filter (· ≠ newline)

def pingHandlers : RawHandlers Unit := fun command =>
  if command = "ping" then some fun d _ _ => (d, .ok .empty) else none

/-- The limiter grants one request, and the ping is the second. -/
theorem connection_answers_ping :
    List.Forall₂ Answers [startEnvelope, pingEnvelope]
      (handleConnection pingHandlers ⟨"1000"⟩ (fun n => n == 0) (fun _ d => d) readEnvelope ()
        (startLine ++ pingLine) (fun _ => 63)) := by
  have hframes : frames newline (startLine ++ pingLine) = [startLine, pingLine] := by
    decide +kernel
  have hlen : startLine.length ≤ maxMsgSize + 1 ∧ pingLine.length ≤ maxMsgSize + 1 := by
    decide +kernel
  refine ((connection_answers_iff pingHandlers ⟨"1000"⟩ (fun n => n == 0) (fun _ d => d)
    readEnvelope lineText () (startLine ++ pingLine) (fun _ => 63) [startEnvelope, pingEnvelope]
    ?_ ?_ ?_).mpr ?_).2
  · rw [hframes]
    rfl
  · rw [hframes]
    simpa using hlen
  · intro j
    simp [lineText]
  · refine ⟨⟨fun _ => ?_, fun h => absurd rfl h⟩, ⟨fun h => ?_, fun _ h => ?_⟩, trivial⟩
    · decide +kernel
    · exact absurd h (by decide)
    · exact absurd h (by decide +kernel)

/-- A start that is rate limited: the one reply has neither its type nor its id. -/
theorem start_limited_unanswered :
    (frames newline startLine).map readEnvelope = [some startEnvelope] ∧
      handleConnection pingHandlers ⟨"1000"⟩ (fun _ => false) (fun _ d => d) readEnvelope ()
          startLine (fun _ => 63) =
        [errorReply "" "ERR_RATE_LIMIT" "IPC rate limit exceeded for this UID"] ∧
      ¬ List.Forall₂ Answers [startEnvelope]
        (handleConnection pingHandlers ⟨"1000"⟩ (fun _ => false) (fun _ d => d) readEnvelope ()
          startLine (fun _ => 63)) := by
  have hframes : frames newline startLine = [startLine] := by decide +kernel
  have hlen : ∀ f ∈ [startLine], f.length ≤ maxMsgSize + 1 := by decide +kernel
  have hline : readEnvelope startLine = some startEnvelope := rfl
  have hlimited : rateLimited ⟨"1000"⟩ (fun _ => false) 0 = true := by decide +kernel
  have hreplies : handleConnection pingHandlers ⟨"1000"⟩ (fun _ => false) (fun _ d => d)
      readEnvelope () startLine (fun _ => 63) =
        [errorReply "" "ERR_RATE_LIMIT" "IPC rate limit exceeded for this UID"] := by
    rw [handleConnection, (readLine_frames _ _ _).1, hframes, frameResults_of_fit hlen,
      List.map_singleton, List.singleton_append, replies_request hline, serve, hlimited]
    rfl
  refine ⟨by rw [hframes, List.map_singleton, hline], hreplies, ?_⟩
  rw [hreplies]
  intro h
  obtain ⟨⟨htype, -⟩, -⟩ := List.forall₂_cons.mp h
  have hm := (member_response (failure "" "ERR_RATE_LIMIT"
    "IPC rate limit exceeded for this UID" none)).2
  cases hm.symm.trans htype

end Ipc

end Unitpm
