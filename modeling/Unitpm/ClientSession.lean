import Unitpm.ConcurrentServer
import Unitpm.Lib.Torn

/-! # A client and its connection

`Client::call` of `internal/ipc/transport/client.rs` against `handle_connection`.  The client makes
its calls one after another on one stream: it writes a line, reads one line and compares the id in
it with its own.  Either direction is a queue of bytes; they are read in pieces of any size, writes
and reads fail or time out after any number of bytes, and the client goes on with its next call on
the same stream.  So a request may follow the torn beginning of another one, a call may find the
reply to an earlier call or what is left of it, and what a `BufReader` holds behind the line is lost
with it.

`session_answers`: whatever happens, a call that reports a result or an error of the daemon reports
the reply to its own request, and the daemon handles the requests at most once each and in the order
of the calls. -/

namespace Unitpm.Ipc

open Frames Run Torn

/-! ### Requests and replies -/

/-- `protocol::Request` as a client makes it. -/
structure Request where
  id : String
  command : String
  params : Option RawMessage := none

/-- The request as the server reads it. -/
def Request.universal (r : Request) : UniversalRequest where
  version := version
  id := r.id
  command := r.command
  params := RawMessage.sent r.params

/-- What `read_line` and `unmarshal` of the client make of a line; no byte is the end of the
stream. -/
def readReply (decode : List UInt8 → Except Serde.Error Response) (line : List UInt8) : Reply :=
  if line = [] then .closed
  else match Utf8.decode line with
    | none => .failed "stream did not contain valid UTF-8"
    | some _ =>
        match decode line with
        | .error e => .unreadable e
        | .ok resp => .response resp

/-- How much of the line of a reply is written: all of it, or a beginning of the text, after which
`send_error` tries the newline all the same. -/
inductive Delivery where
  | whole
  | torn (n : ℕ) (newlineToo : Bool)

def Delivery.bytes (text : List UInt8) : Delivery → List UInt8
  | .whole => text ++ [newline]
  | .torn n newlineToo => text.take n ++ if newlineToo then [newline] else []

/-! ### The session -/

/-- Where the client is: between two calls, in the `read_line` of a call with what it has gathered,
or gone. -/
inductive ClientState where
  | idle
  | reading (id : String) (buf : List UInt8)
  | gone

/-- A request that the server has read, the state it was handled in, the answer of the limiter, and
the reply. -/
structure Handled (σ : Type) where
  request : UniversalRequest
  before : σ
  granted : Bool
  reply : Option Json

/-- Both ends of a connection, the bytes on the way, and what has happened: the ids of the calls,
what has been written of their requests, the requests that were handled, what has been written of
replies, and how the calls have ended. -/
structure Session (σ : Type) where
  state : σ
  up : List UInt8 := []
  down : List UInt8 := []
  isOpen : Bool := true
  client : ClientState := .idle
  calls : List String := []
  sent : List (Request × List UInt8) := []
  handled : List (Handled σ) := []
  wrote : List (Json × List UInt8) := []
  results : List (String × Reply) := []

/-- What happens next.  `callFailed` is a call that fails when so many bytes are written, `hangUp` a
server thread that ends by itself, and `change` what others do to the state. -/
inductive SessionEvent (σ : Type) where
  | call (r : Request)
  | callFailed (r : Request) (n : ℕ) (e : String)
  | read (n : ℕ)
  | readFailed (e : String)
  | leave
  | serve (granted : Bool) (delivery : Delivery)
  | hangUp
  | change (f : σ → σ)

section Model

variable {σ : Type} (handlers : RawHandlers σ) (identity : Identity)
  (unmarshal : List UInt8 → Option UniversalRequest) (marshal : Json → List UInt8)
  (text : Request → List UInt8) (decode : List UInt8 → Except Serde.Error Response)

/-- What the server makes of a request it has read. -/
def answer (granted : Bool) (d : σ) (univ : UniversalRequest) : σ × Option Json :=
  if rateLimited identity (fun _ => granted) 0 then
    (d, some (errorReply univ.id "ERR_RATE_LIMIT" "IPC rate limit exceeded for this UID"))
  else respond handlers identity d univ

namespace Session

/-- Bytes of a reply are written. -/
def put (reply : Json) (bytes : List UInt8) (s : Session σ) : Session σ :=
  { s with
    down := s.down ++ bytes
    wrote := push reply bytes s.wrote }

/-- `send_error` before a return. -/
def refuse (code message : String) (delivery : Delivery) (s : Session σ) : Session σ :=
  let reply := errorReply "" code message
  { s.put reply (delivery.bytes (marshal reply)) with isOpen := false }

/-- A request is handled, and its reply is written.  Only the write of an error of the limiter may
fail without an end of the loop. -/
def handle (granted : Bool) (delivery : Delivery) (univ : UniversalRequest) (s : Session σ) :
    Session σ :=
  let result := answer handlers identity granted s.state univ
  let s' := { s with
    state := result.1
    handled := s.handled ++ [Handled.mk univ s.state granted result.2] }
  match result.2 with
  | none => { s' with isOpen := false }
  | some reply =>
      if rateLimited identity (fun _ => granted) 0 then
        s'.put reply (delivery.bytes (marshal reply))
      else match delivery with
        | .whole => s'.put reply (marshal reply ++ [newline])
        | .torn n _ => { s'.put reply ((marshal reply).take n) with isOpen := false }

/-- The server waits for bytes. -/
def Waits (s : Session σ) : Prop :=
  newline ∉ s.up ∧ s.up.length ≤ maxMsgSize + 1 ∧
    match s.client with
    | .gone => False
    | _ => True

instance decidableWaits (s : Session σ) : Decidable s.Waits := by
  unfold Waits
  cases s.client <;> infer_instance

/-- A round of the loop of `handle_connection`. -/
def serve (granted : Bool) (delivery : Delivery) (s : Session σ) : Session σ :=
  if s.isOpen = false ∨ s.Waits then s
  else match frameResult (cut newline s.up).1 with
    | .error .tooLong => s.refuse marshal "ERR_LIMITS" "Message too large" delivery
    | .ok none => { s with isOpen := false }
    | .ok (some line) =>
        match unmarshal line with
        | none => s.refuse marshal "ERR_BAD_REQUEST" "Invalid JSON" delivery
        | some univ =>
            handle handlers identity marshal granted delivery univ
              { s with up := (cut newline s.up).2 }

/-- A request is written up to some byte. -/
def send (r : Request) (bytes : List UInt8) (s : Session σ) : Session σ :=
  { s with
    up := s.up ++ bytes
    calls := s.calls ++ [r.id]
    sent := push r bytes s.sent }

/-- A call returns; its `BufReader` goes. -/
def finish (id : String) (reply : Reply) (s : Session σ) : Session σ :=
  { s with client := .idle, results := s.results ++ [(id, reply)] }

/-- A `read` of the client, of at most so many bytes. -/
def read (n : ℕ) (s : Session σ) : Session σ :=
  match s.client with
  | .reading id buf =>
      if s.down = [] then
        if s.isOpen then s else s.finish id (readReply decode buf)
      else
        let buf := buf ++ s.down.take (n + 1)
        let s := { s with down := s.down.drop (n + 1) }
        if newline ∈ buf then s.finish id (readReply decode (cut newline buf).1)
        else { s with client := .reading id buf }
  | _ => s

/-- A step that is not enabled does nothing. -/
def step (s : Session σ) : SessionEvent σ → Session σ
  | .call r =>
      match s.client with
      | .idle => { s.send r (text r ++ [newline]) with client := .reading r.id [] }
      | _ => s
  | .callFailed r n e =>
      match s.client with
      | .idle => (s.send r ((text r ++ [newline]).take n)).finish r.id (.failed e)
      | _ => s
  | .read n => s.read decode n
  | .readFailed e =>
      match s.client with
      | .reading id _ => s.finish id (.failed e)
      | _ => s
  | .leave => { s with client := .gone }
  | .serve granted delivery => s.serve handlers identity unmarshal marshal granted delivery
  | .hangUp => { s with isOpen := false }
  | .change f => { s with state := f s.state }

end Session

end Model

/-- The call that starts. -/
def SessionEvent.request {σ : Type} : SessionEvent σ → Option Request
  | .call r | .callFailed r _ _ => some r
  | _ => none

/-- `generate_id` gives an id of its own to each call. -/
def Fresh {σ : Type} (s : Session σ) (ev : SessionEvent σ) : Prop :=
  ∀ r, ev.request = some r → r.id ≠ "" ∧ r.id ∉ s.calls

/-- The standard responses. -/
def responses : Set Json := Set.range Response.toJson

section Invariant

variable {σ : Type} {handlers : RawHandlers σ} {identity : Identity}
  {unmarshal : List UInt8 → Option UniversalRequest} {marshal : Json → List UInt8}
  {text : Request → List UInt8} {decode : List UInt8 → Except Serde.Error Response}
  {s : Session σ} {r : Request} {id : String} {reply : Json} {resp : Response}
  {reply' : Reply} {buf : List UInt8}

/-! ### The reply to a request -/

theorem answer_response {granted : Bool} {d : σ} {univ : UniversalRequest}
    (hkind : univ.kind ≠ "start")
    (hr : (answer handlers identity granted d univ).2 = some reply) :
    ∃ resp : Response, reply = resp.toJson ∧ resp.id = univ.id := by
  unfold answer at hr
  split_ifs at hr
  · exact ⟨_, (Option.some.inj hr).symm, rfl⟩
  · unfold respond at hr
    rw [if_neg hkind] at hr
    simp only at hr
    split_ifs at hr
    exact ⟨_, (Option.some.inj hr).symm, dispatch_id ..⟩

theorem Delivery.part (delivery : Delivery) {t : List UInt8} (m : Json) (ht : marshal m = t)
    (hne : delivery.bytes t ≠ []) : Part marshal newline m (delivery.bytes t) := by
  subst ht
  refine ⟨hne, ?_⟩
  cases delivery with
  | whole => exact ⟨marshal m, List.prefix_refl _, .inr rfl⟩
  | torn n newlineToo =>
      refine ⟨(marshal m).take n, List.take_prefix _ _, ?_⟩
      cases newlineToo with
      | false => exact .inl (List.append_nil _)
      | true => exact .inr rfl

theorem decode_of_readReply {line : List UInt8} (h : readReply decode line = .response resp) :
    line ≠ [] ∧ decode line = .ok resp := by
  unfold readReply at h
  split_ifs at h with hnil
  refine ⟨hnil, ?_⟩
  cases hutf : Utf8.decode line with
  | none => simp [hutf] at h
  | some cs =>
      cases hd : decode line with
      | error e => simp [hutf, hd] at h
      | ok got =>
          simp only [hutf, hd, Reply.response.injEq] at h
          rw [h]

/-! ### What holds throughout -/

/-- The daemon has handled requests that were sent, each once and in their order. -/
def InOrder (s : Session σ) (read : List (Request × List UInt8)) : Prop :=
  s.handled.map Handled.request = read.map fun p => p.1.universal

/-- The response is the reply to the call. -/
def Genuine (marshal : Json → List UInt8) (decode : List UInt8 → Except Serde.Error Response)
    (handled : List (Handled σ)) (id : String) (resp : Response) : Prop :=
  ∃ e ∈ handled, e.request.id = id ∧
    ∃ reply, e.reply = some reply ∧ decode (marshal reply) = .ok resp

/-- A part of a reply to something else, but not all of it, reads as a response to the call. -/
def Forged (marshal : Json → List UInt8) (decode : List UInt8 → Except Serde.Error Response)
    (wrote : List (Json × List UInt8)) (id : String) : Prop :=
  ∃ p ∈ wrote, member "id" p.1 ≠ some (.str id) ∧
    ∃ l resp, l <:+: marshal p.1 ∧ l ≠ marshal p.1 ∧ decode l = .ok resp ∧ resp.id = id

/-- What the client will read for its call: an end of what was written before the call, none of it
for this call, and what has been written since. -/
structure Reads (s : Session σ) (id : String) (buf : List UInt8) : Prop where
  notMem : newline ∉ buf
  parts : ∃ old new y, s.wrote = old ++ new ∧ y <:+ stream old ∧
    buf ++ s.down = y ++ stream new ∧ ∀ p ∈ old, member "id" p.1 ≠ some (.str id)

/-- The invariant. -/
structure Sound (handlers : RawHandlers σ) (identity : Identity) (marshal : Json → List UInt8)
    (text : Request → List UInt8) (decode : List UInt8 → Except Serde.Error Response)
    (s : Session σ) : Prop where
  sent : ∀ p ∈ s.sent, p.2 ≠ [] ∧ p.2 <+: text p.1 ++ [newline]
  calls : (s.sent.map fun p => p.1.id).Sublist s.calls
  nodup : s.calls.Nodup
  up : ∃ read pending, s.sent = read ++ pending ∧ InOrder s read ∧
    (s.isOpen = true → s.up = stream pending)
  answers : ∀ e ∈ s.handled, e.reply = (answer handlers identity e.granted e.before e.request).2
  parts : Parts responses marshal newline s.wrote
  wrote : ∀ p ∈ s.wrote, member "id" p.1 = some (.str "") ∨
    ∃ e ∈ s.handled, e.reply = some p.1 ∧ member "id" p.1 = some (.str e.request.id)
  down : s.down <:+ stream s.wrote
  reads : ∀ id buf, s.client = .reading id buf → id ≠ "" ∧ Reads s id buf
  results : ∀ id resp, (id, .response resp) ∈ s.results → resp.id = id →
    Genuine marshal decode s.handled id resp ∨ Forged marshal decode s.wrote id

namespace Sound

variable (h : Sound handlers identity marshal text decode s)
include h

theorem mem_calls {e : Handled σ} (he : e ∈ s.handled) : e.request.id ∈ s.calls := by
  obtain ⟨read, pending, hsent, hread, -⟩ := h.up
  have hmem : e.request ∈ read.map fun p => p.1.universal := by
    rw [← hread]
    exact List.mem_map_of_mem he
  obtain ⟨p, hp, huniv⟩ := List.mem_map.mp hmem
  apply h.calls.subset
  rw [hsent, ← huniv]
  exact List.mem_map_of_mem (List.mem_append_left pending hp)

theorem foreign (hid : id ≠ "") (hnew : id ∉ s.calls) :
    ∀ p ∈ s.wrote, member "id" p.1 ≠ some (.str id) := by
  intro p hp heq
  rcases h.wrote p hp with hempty | ⟨e, he, -, hmem⟩
  · rw [hempty, Option.some.injEq, Json.str.injEq] at heq
    exact hid heq.symm
  · rw [hmem, Option.some.injEq, Json.str.injEq] at heq
    exact hnew (heq ▸ h.mem_calls he)

theorem reads_congr {s' : Session σ} (hclient : s'.client = s.client) (hwrote : s'.wrote = s.wrote)
    (hdown : s'.down = s.down) (id : String) (buf : List UInt8)
    (hreading : s'.client = .reading id buf) : id ≠ "" ∧ Reads s' id buf := by
  rw [hclient] at hreading
  obtain ⟨hid, hnot, hparts⟩ := h.reads id buf hreading
  rw [← hwrote, ← hdown] at hparts
  exact ⟨hid, hnot, hparts⟩

/-! ### Steps that write -/

theorem put (reply : Json) (bytes : List UInt8)
    (hpart : bytes ≠ [] → Part marshal newline reply bytes)
    (hreply : reply ∈ responses)
    (hfor : member "id" reply = some (.str "") ∨
      ∃ e ∈ s.handled, e.reply = some reply ∧ member "id" reply = some (.str e.request.id)) :
    Sound handlers identity marshal text decode (s.put reply bytes) where
  sent := h.sent
  calls := h.calls
  nodup := h.nodup
  up := h.up
  answers := h.answers
  parts := by
    intro p hp
    rcases mem_push hp with hp | ⟨rfl, hne⟩
    · exact h.parts p hp
    · exact ⟨hreply, hpart hne⟩
  wrote := by
    intro p hp
    rcases mem_push hp with hp | ⟨rfl, -⟩
    · exact h.wrote p hp
    · exact hfor
  down := by
    change s.down ++ bytes <:+ stream (push reply bytes s.wrote)
    rw [stream_push]
    obtain ⟨x, hx⟩ := h.down
    exact ⟨x, by rw [← List.append_assoc, hx]⟩
  reads := by
    intro id buf hclient
    obtain ⟨hid, hnot, old, new, y, hwrote, hy, hbuf, hold⟩ := h.reads id buf hclient
    refine ⟨hid, hnot, old, push reply bytes new, y, ?_, hy, ?_, hold⟩
    · change push reply bytes s.wrote = _
      rw [hwrote, push_append]
    · change buf ++ (s.down ++ bytes) = _
      rw [stream_push, ← List.append_assoc, hbuf, List.append_assoc]
  results := by
    intro id resp hmem hresp
    refine (h.results id resp hmem hresp).imp_right ?_
    rintro ⟨p, hp, hforged⟩
    exact ⟨p, subset_push reply bytes s.wrote hp, hforged⟩

theorem close : Sound handlers identity marshal text decode { s with isOpen := false } where
  sent := h.sent
  calls := h.calls
  nodup := h.nodup
  up := by
    obtain ⟨read, pending, hsent, hread, -⟩ := h.up
    exact ⟨read, pending, hsent, hread, fun hopen => by cases hopen⟩
  answers := h.answers
  parts := h.parts
  wrote := h.wrote
  down := h.down
  reads := h.reads_congr rfl rfl rfl
  results := h.results

theorem refuse (code message : String) (delivery : Delivery) :
    Sound handlers identity marshal text decode (s.refuse marshal code message delivery) := by
  have hput := h.put (errorReply "" code message)
    (delivery.bytes (marshal (errorReply "" code message))) (Delivery.part delivery _ rfl)
    ⟨_, rfl⟩ (.inl (member_response _).1)
  exact hput.close

/-- A request is written up to some byte. -/
theorem send {bytes : List UInt8} (hnew : r.id ∉ s.calls) (hbytes : bytes <+: text r ++ [newline]) :
    Sound handlers identity marshal text decode (s.send r bytes) where
  sent := by
    intro p hp
    rcases mem_push hp with hp | ⟨rfl, hne⟩
    · exact h.sent p hp
    · exact ⟨hne, hbytes⟩
  calls := by
    change ((push r bytes s.sent).map fun p => p.1.id).Sublist (s.calls ++ [r.id])
    unfold push
    split_ifs
    · exact h.calls.trans (List.sublist_append_left _ _)
    · rw [List.map_append]
      exact h.calls.append (List.Sublist.refl _)
  nodup := by
    change (s.calls ++ [r.id]).Nodup
    rw [List.nodup_append]
    refine ⟨h.nodup, List.nodup_singleton _, fun a ha b hb heq => ?_⟩
    rw [heq, List.mem_singleton.mp hb] at ha
    exact hnew ha
  up := by
    obtain ⟨read, pending, hsent, hread, hup⟩ := h.up
    refine ⟨read, push r bytes pending, ?_, hread, fun hopen => ?_⟩
    · change push r bytes s.sent = _
      rw [hsent, push_append]
    · change s.up ++ bytes = _
      rw [stream_push, hup hopen]
  answers := h.answers
  parts := h.parts
  wrote := h.wrote
  down := h.down
  reads := h.reads_congr rfl rfl rfl
  results := h.results

theorem finish {d : List UInt8} (hd : d <:+ s.down)
    (hres : ∀ resp, reply' = .response resp → resp.id = id →
      Genuine marshal decode s.handled id resp ∨ Forged marshal decode s.wrote id) :
    Sound handlers identity marshal text decode (({ s with down := d }).finish id reply') where
  sent := h.sent
  calls := h.calls
  nodup := h.nodup
  up := h.up
  answers := h.answers
  parts := h.parts
  wrote := h.wrote
  down := hd.trans h.down
  reads := fun id buf hclient => by cases hclient
  results := by
    intro id' resp hmem hresp
    rcases List.mem_append.mp hmem with hmem | hmem
    · exact h.results id' resp hmem hresp
    · obtain ⟨rfl, hreply⟩ := Prod.mk.inj (List.mem_singleton.mp hmem)
      exact hres resp hreply.symm hresp

/-! ### The reply to a call -/

/-- What a call reads as its response is the reply to its request. -/
theorem genuine_or_forged
    (hreplies : Texts responses marshal newline fun l => (decode l).toOption)
    (hident : ∀ (resp got : Response), decode (marshal resp.toJson) = .ok got → got.id = resp.id)
    (hclient : s.client = .reading id buf) (resp : Response)
    (hresp : readReply decode (cut newline (buf ++ s.down)).1 = .response resp)
    (hid : resp.id = id) :
    Genuine marshal decode s.handled id resp ∨ Forged marshal decode s.wrote id := by
  obtain ⟨hname, -, old, new, y, hwrote, hy, hbuf, hold⟩ := h.reads id buf hclient
  obtain ⟨hne, hdecode⟩ := decode_of_readReply hresp
  have hparts := h.parts
  rw [hwrote] at hparts
  rw [hbuf] at hne hdecode
  have hsource := hreplies.source_of_decode (r := resp)
    (fun p hp => hparts p (List.mem_append_left new hp))
    (fun p hp => hparts p (List.mem_append_right old hp)) hy
    (fun hnil => hne (cut_fst_eq_nil.mpr hnil)) (by rw [hdecode]; rfl)
  have hok : ∀ l, (decode l).toOption = some resp → decode l = .ok resp := by
    intro l hl
    cases hd : decode l with
    | error e => rw [hd] at hl; cases hl
    | ok got => rw [hd] at hl; rw [Option.some.inj hl]
  -- a whole reply has the id of its request
  have hwhole : ∀ p ∈ s.wrote, decode (marshal p.1) = .ok resp →
      member "id" p.1 = some (.str id) := by
    intro p hp hd
    obtain ⟨resp', hresp'⟩ := (h.parts p hp).1
    rw [← hresp'] at hd ⊢
    rw [(member_response resp').1, ← hident resp' resp hd, hid]
  rcases hsource with ⟨p, hp, l, hl, hd⟩ | ⟨p, hp, hd⟩
  · have hmem : p ∈ s.wrote := hwrote ▸ List.mem_append_left new hp
    refine .inr ⟨p, hmem, hold p hp, l, resp, hl, ?_, hok l hd, hid⟩
    rintro rfl
    exact hold p hp (hwhole p hmem (hok _ hd))
  · left
    rw [← hwrote] at hp
    have hmem := hwhole p hp (hok _ hd)
    rcases h.wrote p hp with hempty | ⟨e, he, hreply, hfor⟩
    · rw [hempty, Option.some.injEq, Json.str.injEq] at hmem
      exact absurd hmem.symm hname
    · rw [hfor, Option.some.injEq, Json.str.injEq] at hmem
      exact ⟨e, he, hmem, p.1, hreply, hok _ hd⟩

theorem gather {buf' d : List UInt8} (hd : d <:+ s.down) (hnot : newline ∉ buf')
    (hclient : s.client = .reading id buf) (hsplit : buf' ++ d = buf ++ s.down) :
    Sound handlers identity marshal text decode
      { s with down := d, client := .reading id buf' } where
  sent := h.sent
  calls := h.calls
  nodup := h.nodup
  up := h.up
  answers := h.answers
  parts := h.parts
  wrote := h.wrote
  down := hd.trans h.down
  reads := by
    intro id' buf₁ heq
    obtain ⟨rfl, rfl⟩ := ClientState.reading.inj heq
    obtain ⟨hid, -, old, new, y, hwrote, hy, hbuf, hold⟩ := h.reads id buf hclient
    exact ⟨hid, hnot, old, new, y, hwrote, hy, hsplit.trans hbuf, hold⟩
  results := h.results

theorem read (hreplies : Texts responses marshal newline fun l => (decode l).toOption)
    (hident : ∀ (resp got : Response), decode (marshal resp.toJson) = .ok got → got.id = resp.id)
    (n : ℕ) :
    Sound handlers identity marshal text decode (s.read decode n) := by
  unfold Session.read
  split
  · rename_i id buf hclient
    obtain ⟨hname, hreads⟩ := h.reads id buf hclient
    have hgood := h.genuine_or_forged hreplies hident hclient
    by_cases hdown : s.down = []
    · rw [if_pos hdown]
      split_ifs
      · exact h
      · rw [hdown, List.append_nil, cut_of_notMem hreads.notMem] at hgood
        exact h.finish (List.suffix_refl _) hgood
    · rw [if_neg hdown]
      simp only
      have hsplit : buf ++ s.down.take (n + 1) ++ s.down.drop (n + 1) = buf ++ s.down := by
        rw [List.append_assoc, List.take_append_drop]
      split_ifs with hline
      · have hcut : (cut newline (buf ++ s.down)).1 =
            (cut newline (buf ++ s.down.take (n + 1))).1 := by
          rw [← hsplit, cut_append_of_mem hline]
        rw [hcut] at hgood
        exact h.finish (List.drop_suffix (n + 1) s.down) hgood
      · exact h.gather (List.drop_suffix (n + 1) s.down) hline hclient hsplit
  · exact h

/-! ### A round of the server -/

/-- The request that a line is read as is the next one that was sent. -/
theorem next_request (hrequests : Texts Set.univ text newline unmarshal)
    (hreads : ∀ r univ, unmarshal (text r) = some univ → univ = r.universal)
    (hopen : s.isOpen = true) {univ : UniversalRequest}
    (hline : unmarshal (cut newline s.up).1 = some univ) (hne : (cut newline s.up).1 ≠ []) :
    ∃ read p pending, s.sent = read ++ p :: pending ∧ InOrder s read ∧ univ = p.1.universal ∧
      (cut newline s.up).2 = stream pending := by
  obtain ⟨read, pending, hsent, hread, hup⟩ := h.up
  rw [hup hopen] at hline hne ⊢
  rcases pending with _ | ⟨p, pending⟩
  · exact absurd rfl hne
  · have hparts : ∀ q ∈ p :: pending, q.1 ∈ Set.univ ∧ q.2 ≠ [] ∧ q.2 <+: text q.1 ++ [newline] :=
      fun q hq => ⟨trivial, h.sent q (by rw [hsent]; exact List.mem_append_right read hq)⟩
    obtain ⟨htext, hrest⟩ := hrequests.rest_of_decode hparts hline
    exact ⟨read, p, pending, hsent, hread, hreads p.1 univ htext, hrest⟩

/-- A request has been read and handled. -/
theorem accept {read pending : List (Request × List UInt8)} {p : Request × List UInt8}
    (hsent : s.sent = read ++ p :: pending) (hread : InOrder s read) (granted : Bool) (d : σ) :
    Sound handlers identity marshal text decode
      { s with
        up := stream pending
        state := d
        handled := s.handled ++ [Handled.mk p.1.universal s.state granted
          (answer handlers identity granted s.state p.1.universal).2] } where
  sent := h.sent
  calls := h.calls
  nodup := h.nodup
  up := by
    refine ⟨read ++ [p], pending, by rw [hsent, List.append_assoc]; rfl, ?_, fun _ => rfl⟩
    unfold InOrder at hread ⊢
    rw [List.map_append, List.map_append, hread]
    rfl
  answers := by
    intro e he
    rcases List.mem_append.mp he with he | he
    · exact h.answers e he
    · rw [List.mem_singleton.mp he]
  parts := h.parts
  wrote := by
    intro q hq
    refine (h.wrote q hq).imp_right ?_
    rintro ⟨e, he, hreply⟩
    exact ⟨e, List.mem_append_left _ he, hreply⟩
  down := h.down
  reads := h.reads_congr rfl rfl rfl
  results := by
    intro id resp hmem hresp
    refine (h.results id resp hmem hresp).imp_left ?_
    rintro ⟨e, he, hgenuine⟩
    exact ⟨e, List.mem_append_left _ he, hgenuine⟩

theorem handle {read pending : List (Request × List UInt8)} {p : Request × List UInt8}
    (hsent : s.sent = read ++ p :: pending) (hread : InOrder s read) (granted : Bool)
    (delivery : Delivery) :
    Sound handlers identity marshal text decode
      (Session.handle handlers identity marshal granted delivery p.1.universal
        { s with up := stream pending }) := by
  have hnext := h.accept hsent hread granted
    (answer handlers identity granted s.state p.1.universal).1
  unfold Session.handle
  simp only
  split
  · exact hnext.close
  · rename_i reply hreply
    have hkind : p.1.universal.kind ≠ "start" := by
      change "" ≠ "start"
      decide
    obtain ⟨resp, hresp, hid⟩ := answer_response hkind hreply
    have hfor : ∃ e ∈ s.handled ++ [Handled.mk p.1.universal s.state granted
          (answer handlers identity granted s.state p.1.universal).2],
        e.reply = some reply ∧ member "id" reply = some (.str e.request.id) :=
      ⟨_, List.mem_append_right _ (List.mem_singleton_self _), hreply, by
        rw [hresp, (member_response resp).1, hid]⟩
    have hput := fun (bytes : List UInt8) hpart =>
      hnext.put reply bytes hpart ⟨resp, hresp.symm⟩ (.inr hfor)
    split_ifs
    · exact hput _ (Delivery.part delivery reply rfl)
    · cases delivery with
      | whole => exact hput _ (Delivery.part .whole reply rfl)
      | torn n newlineToo =>
          refine (hput _ fun hne => ?_).close
          exact ⟨hne, _, List.take_prefix n _, .inl rfl⟩

theorem serve (hrequests : Texts Set.univ text newline unmarshal)
    (hreads : ∀ r univ, unmarshal (text r) = some univ → univ = r.universal) (granted : Bool)
    (delivery : Delivery) :
    Sound handlers identity marshal text decode
      (s.serve handlers identity unmarshal marshal granted delivery) := by
  unfold Session.serve
  split_ifs with hidle
  · exact h
  · rw [not_or, Bool.not_eq_false] at hidle
    split
    · exact h.refuse _ _ _
    · exact h.close
    · rename_i line hframe
      have hline : (cut newline s.up).1 = line ∧ line ≠ [] := by
        unfold frameResult at hframe
        split_ifs at hframe with hlong hnil
        · cases hframe
        · rw [Except.ok.injEq, Option.some.injEq] at hframe
          exact ⟨hframe, hframe ▸ hnil⟩
      split
      · exact h.refuse _ _ _
      · rename_i univ huniv
        obtain ⟨read, p, pending, hsent, hread, rfl, hrest⟩ :=
          h.next_request hrequests hreads hidle.1 (hline.1 ▸ huniv) (hline.1 ▸ hline.2)
        rw [hrest]
        exact h.handle hsent hread granted delivery

end Sound

/-! ### Runs -/

/-- A step. -/
theorem Sound.step (hrequests : Texts Set.univ text newline unmarshal)
    (hreads : ∀ r univ, unmarshal (text r) = some univ → univ = r.universal)
    (hreplies : Texts responses marshal newline fun l => (decode l).toOption)
    (hident : ∀ (resp got : Response), decode (marshal resp.toJson) = .ok got → got.id = resp.id)
    (s : Session σ) (ev : SessionEvent σ) (h : Sound handlers identity marshal text decode s)
    (hfresh : Fresh s ev) :
    Sound handlers identity marshal text decode
      (s.step handlers identity unmarshal marshal text decode ev) := by
  cases ev with
  | call r =>
      simp only [Session.step]
      split
      · obtain ⟨hname, hnew⟩ := hfresh r rfl
        have hsend := h.send hnew (List.prefix_refl (text r ++ [newline]))
        refine { hsend with reads := ?_ }
        intro id buf heq
        obtain ⟨rfl, rfl⟩ := ClientState.reading.inj heq
        refine ⟨hname, List.not_mem_nil, s.wrote, [], s.down, ?_, h.down, ?_,
          h.foreign hname hnew⟩
        · rw [List.append_nil]
          rfl
        · rw [stream_nil, List.append_nil]
          rfl
      · exact h
  | callFailed r n e =>
      simp only [Session.step]
      split
      · obtain ⟨-, hnew⟩ := hfresh r rfl
        have hsend := h.send hnew (List.take_prefix n (text r ++ [newline]))
        exact hsend.finish (List.suffix_refl _) fun resp heq => by cases heq
      · exact h
  | read n => exact h.read hreplies hident n
  | readFailed e =>
      simp only [Session.step]
      split
      · exact h.finish (List.suffix_refl _) fun resp heq => by cases heq
      · exact h
  | leave => exact { h with reads := fun id buf heq => by cases heq }
  | serve granted delivery => exact h.serve hrequests hreads granted delivery
  | hangUp => exact h.close
  | change f => exact { h with reads := h.reads_congr rfl rfl rfl }

/-- The call returns what the daemon says: a result, or an error of the daemon. -/
def Answered {ρ : Type} : Except TransportError ρ → Prop
  | .ok _ | .error (.remote _ _ _) => True
  | .error _ => False

theorem response_of_answered {ρ : Type} {c : Serde.Shape ρ} {target : ρ}
    (h : Answered (call c target id reply')) : ∃ resp, reply' = .response resp ∧ resp.id = id := by
  cases reply' with
  | failed e => exact h.elim
  | closed => exact h.elim
  | unreadable e => exact h.elim
  | response resp =>
      refine ⟨resp, rfl, ?_⟩
      by_contra hne
      unfold call at h
      simp only [ne_eq, hne, not_false_eq_true, if_true] at h
      exact h

end Invariant

/-- **Whatever is lost.**  After any run of a client and its connection: the daemon has handled
requests that were sent, no call's twice and in the order of the calls, and has answered each of
them from the state it was handled in; and a call that returns a result or an error of the daemon
returns the whole reply to its own request, unless a part of a reply to something else happens to
read as a response with the id of the call. -/
theorem session_answers {σ : Type} (handlers : RawHandlers σ) (identity : Identity)
    (unmarshal : List UInt8 → Option UniversalRequest) (marshal : Json → List UInt8)
    (text : Request → List UInt8) (decode : List UInt8 → Except Serde.Error Response)
    (hrequests : Texts Set.univ text newline unmarshal)
    (hreads : ∀ r univ, unmarshal (text r) = some univ → univ = r.universal)
    (hreplies : Texts responses marshal newline fun l => (decode l).toOption)
    (hident : ∀ (resp got : Response), decode (marshal resp.toJson) = .ok got → got.id = resp.id)
    (d : σ) (evs : List (SessionEvent σ))
    (hfresh : Along (Session.step handlers identity unmarshal marshal text decode) Fresh
      { state := d } evs)
    (s : Session σ)
    (hs : evs.foldl (Session.step handlers identity unmarshal marshal text decode)
      { state := d } = s) :
    ((∃ read, read <+: s.sent ∧ InOrder s read) ∧
        (s.handled.map fun e => e.request.id).Sublist s.calls ∧ s.calls.Nodup) ∧
      (∀ e ∈ s.handled,
        e.reply = (answer handlers identity e.granted e.before e.request).2) ∧
      ∀ (id : String) (reply : Reply) (ρ : Type) (c : Serde.Shape ρ) (target : ρ),
        (id, reply) ∈ s.results → Answered (call c target id reply) →
        ¬ Forged marshal decode s.wrote id →
        ∃ resp, reply = .response resp ∧ Genuine marshal decode s.handled id resp := by
  have hinit : Sound handlers identity marshal text decode ({ state := d } : Session σ) := by
    constructor
    · simp
    · simp
    · simp
    · exact ⟨[], [], rfl, rfl, fun _ => rfl⟩
    · simp
    · simp [Parts]
    · simp
    · simp
    · intro id buf heq
      cases heq
    · simp
  have hsound : Sound handlers identity marshal text decode s := by
    rw [← hs]
    exact hfresh.invariant _ (Sound.step hrequests hreads hreplies hident) hinit
  obtain ⟨read, pending, hsent, hread, -⟩ := hsound.up
  have hbegins : read <+: s.sent := ⟨pending, hsent.symm⟩
  have hids : (s.handled.map fun e => e.request.id) = read.map fun p => p.1.id := by
    have hmap := congrArg (List.map UniversalRequest.id) hread
    rwa [List.map_map, List.map_map] at hmap
  refine ⟨⟨⟨read, hbegins, hread⟩, ?_, hsound.nodup⟩, hsound.answers, ?_⟩
  · rw [hids]
    exact (hbegins.sublist.map _).trans hsound.calls
  · intro id reply ρ c target hmem hans hforged
    obtain ⟨resp, rfl, hid⟩ := response_of_answered hans
    exact ⟨resp, rfl, (hsound.results id resp hmem hid).resolve_right hforged⟩

/-! ### Pings -/

def pingIds : List String := ["5", "6", "7"]

def pingOf (id : String) : Request where
  id := id
  command := "ping"

/-- The response to it. -/
def pongTo (id : String) : Response where
  id := id
  status := statusSuccess

/-- The first byte of all texts. -/
def brace : UInt8 := 123

def pingText (id : String) : List UInt8 :=
  Utf8.encode ("\x7b\"version\":1,\"id\":\"".toList ++ id.toList ++
    "\",\"command\":\"ping\"\x7d".toList)

def pongText (id : String) : List UInt8 :=
  Utf8.encode ("\x7b\"version\":1,\"id\":\"".toList ++ id.toList ++
    "\",\"status\":\"success\",\"result\":null\x7d".toList)

/-- A format that knows no texts but these. -/
def requestText (r : Request) : List UInt8 :=
  if r.id ∈ pingIds ∧ r.command = "ping" ∧ r.params.isNone then pingText r.id else [brace]

def replyText (j : Json) : List UInt8 :=
  match member "id" j with
  | some (.str id) => if id ∈ pingIds then pongText id else [brace]
  | _ => [brace]

def readRequest (l : List UInt8) : Option UniversalRequest :=
  (pingIds.find? fun id => l.filter (· ≠ newline) = pingText id).map fun id =>
    (pingOf id).universal

def readResponse (l : List UInt8) : Except Serde.Error Response :=
  match pingIds.find? fun id => l.filter (· ≠ newline) = pongText id with
  | some id => .ok (pongTo id)
  | none => .error .eof

theorem filter_line (l : List UInt8) :
    (l ++ [newline]).filter (· ≠ newline) = l.filter (· ≠ newline) := by
  simp

theorem texts_ping : Texts Set.univ requestText newline readRequest := by
  refine texts_of_wholes _ (pingIds.map pingText) brace ?_ ?_ ?_ (by decide) ?_ ?_ (fun r => ?_)
    (fun l hl => ?_) (fun l => ?_)
  · decide +kernel
  · decide +kernel
  · decide +kernel
  · decide +kernel
  · decide +kernel
  · unfold requestText
    split_ifs with hr
    · exact .inl (List.mem_map_of_mem hr.1)
    · exact .inr rfl
  · rw [readRequest, Option.map_eq_none_iff, List.find?_eq_none]
    exact fun id hid heq => hl (List.mem_map.mpr ⟨id, hid, (of_decide_eq_true heq).symm⟩)
  · unfold readRequest
    rw [filter_line]

theorem mem_pingIds {id : String} (h : id ∈ pingIds) : id = "5" ∨ id = "6" ∨ id = "7" := by
  simpa [pingIds] using h

theorem readRequest_pingText {id : String} (h : id ∈ pingIds) :
    readRequest (pingText id) = some (pingOf id).universal := by
  rcases mem_pingIds h with rfl | rfl | rfl <;> rfl

theorem readResponse_pongText {id : String} (h : id ∈ pingIds) :
    readResponse (pongText id) = .ok (pongTo id) := by
  rcases mem_pingIds h with rfl | rfl | rfl <;> rfl

theorem readResponse_ok {l : List UInt8} {resp : Response} (h : readResponse l = .ok resp) :
    ∃ id ∈ pingIds, l.filter (· ≠ newline) = pongText id ∧ resp = pongTo id := by
  unfold readResponse at h
  cases hfind : pingIds.find? fun id => l.filter (· ≠ newline) = pongText id with
  | none =>
      rw [hfind] at h
      cases h
  | some id =>
      rw [hfind] at h
      have htext := List.find?_some hfind
      exact ⟨id, List.mem_of_find?_eq_some hfind, of_decide_eq_true htext,
        (Except.ok.inj h).symm⟩

theorem texts_pong : Texts responses replyText newline fun l => (readResponse l).toOption := by
  refine texts_of_wholes _ (pingIds.map pongText) brace ?_ ?_ ?_ (by decide) ?_ ?_ (fun j => ?_)
    (fun l hl => ?_) (fun l => ?_)
  · decide +kernel
  · decide +kernel
  · decide +kernel
  · decide +kernel
  · decide +kernel
  · unfold replyText
    split
    · split_ifs with hid
      · exact .inl (List.mem_map_of_mem hid)
      · exact .inr rfl
    · exact .inr rfl
  · cases h : readResponse l with
    | error e => rfl
    | ok resp =>
        obtain ⟨id, hid, heq, -⟩ := readResponse_ok h
        exact absurd (List.mem_map.mpr ⟨id, hid, heq.symm⟩) hl
  · unfold readResponse
    rw [filter_line]

/-- The reply is read in two pieces. -/
def pingEvents : List (SessionEvent Unit) :=
  [.call (pingOf "7"), .serve true .whole, .read 20, .read 200]

def pingSession : Session Unit :=
  pingEvents.foldl (Session.step pingHandlers ⟨"1000"⟩ readRequest replyText requestText
    readResponse) { state := () }

/-- The first call does not wait for its reply, which the second one takes, and with it in its
buffer the reply to itself.  The third is answered, and of the fourth one byte is sent. -/
def lateEvents : List (SessionEvent Unit) :=
  [.call (pingOf "5"), .readFailed "timed out", .serve true .whole,
    .call (pingOf "6"), .serve true .whole, .read 500,
    .call (pingOf "7"), .serve true .whole, .read 20, .read 200,
    .callFailed (pingOf "8") 1 "timed out"]

def lateSession : Session Unit :=
  lateEvents.foldl (Session.step pingHandlers ⟨"1000"⟩ readRequest replyText requestText
    readResponse) { state := () }

theorem session_answers_late :
    lateSession.results = [("5", .failed "timed out"), ("6", .response (pongTo "5")),
        ("7", .response (pongTo "7")), ("8", .failed "timed out")] ∧
      ∃ resp, Reply.response (pongTo "7") = .response resp ∧
        Genuine replyText readResponse lateSession.handled "7" resp := by
  have hresults : lateSession.results = [("5", .failed "timed out"), ("6", .response (pongTo "5")),
      ("7", .response (pongTo "7")), ("8", .failed "timed out")] := rfl
  have hwrote : lateSession.wrote.map (fun p => member "id" p.1) =
      [some (.str "5"), some (.str "6"), some (.str "7")] := rfl
  have hreads : ∀ r univ, readRequest (requestText r) = some univ → univ = r.universal := by
    intro r univ h
    unfold requestText at h
    split_ifs at h with hping
    · obtain ⟨hid, hcommand, hparams⟩ := hping
      obtain ⟨id, command, params⟩ := r
      obtain rfl : command = "ping" := hcommand
      obtain rfl : params = none := Option.isNone_iff_eq_none.mp hparams
      rw [readRequest_pingText hid] at h
      exact (Option.some.inj h).symm
    · cases h
  have hident : ∀ (resp got : Response),
      readResponse (replyText resp.toJson) = .ok got → got.id = resp.id := by
    intro resp got h
    unfold replyText at h
    rw [(member_response resp).1] at h
    simp only at h
    split_ifs at h with hid
    · rw [readResponse_pongText hid] at h
      rw [← Except.ok.inj h]
      rfl
    · cases h
  have hfresh : Along (Session.step pingHandlers ⟨"1000"⟩ readRequest replyText requestText
      readResponse) Fresh { state := () } lateEvents := by
    have hall : Along (Session.step pingHandlers ⟨"1000"⟩ readRequest replyText requestText
        readResponse) (fun s ev => ev.request.all fun r => r.id ≠ "" ∧ r.id ∉ s.calls)
        { state := () } lateEvents := by decide +kernel
    refine hall.mono fun s ev h r hr => ?_
    simpa [hr] using h
  have hforged : ¬ Forged replyText readResponse lateSession.wrote "7" := by
    -- no reply to another ping has the text of this one in it
    have hother : ∀ id ∈ pingIds, id ≠ "7" → ¬ pongText "7" <:+: pongText id := by decide +kernel
    have hline : ∀ id ∈ pingIds, newline ∉ pongText id := by decide +kernel
    rintro ⟨p, hp, hne, l, resp, hl, -, hresp, hid⟩
    have hmem := List.mem_map_of_mem (f := fun p => member "id" p.1) hp
    rw [hwrote] at hmem
    obtain ⟨id, hid', hmember⟩ : ∃ id ∈ pingIds, member "id" p.1 = some (.str id) := by
      simpa [pingIds] using hmem
    have htext : replyText p.1 = pongText id := by
      rw [replyText, hmember]
      exact if_pos hid'
    rw [htext] at hl
    obtain ⟨id', -, hfilter, rfl⟩ := readResponse_ok hresp
    obtain rfl : id' = "7" := hid
    rw [List.filter_eq_self.mpr] at hfilter
    · exact hother id hid' (fun h => hne (by rw [hmember, h])) (hfilter ▸ hl)
    · intro b hb
      simpa using ne_of_mem_of_not_mem (hl.subset hb) (hline id hid')
  obtain ⟨-, -, hanswered⟩ := session_answers pingHandlers ⟨"1000"⟩ readRequest replyText
    requestText readResponse texts_ping hreads texts_pong hident () lateEvents hfresh lateSession
    lateSession.eq_1.symm
  refine ⟨hresults, hanswered "7" (.response (pongTo "7")) StartResponseData
    StartResponseData.shape { id := "" } ?_ trivial hforged⟩
  rw [hresults]
  simp

end Unitpm.Ipc
