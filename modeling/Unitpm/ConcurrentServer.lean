import Mathlib.Data.Set.Finite.Basic
import Mathlib.Order.Filter.AtTopBot.Basic
import Mathlib.Order.Filter.Finite
import Unitpm.ConcurrentStop
import Unitpm.Connection
import Unitpm.Lib.Sections
import Unitpm.RateLimit

/-! # All connections at once

`Server::start` of `ipc::transport::server`: each connection that is accepted takes a permit and
gets a thread of its own, which runs `handle_connection` and drops the permit.  The threads share
the permits, the limiter and what the handlers work on.  A handler takes the lock of this for one
section after the other, and a run is any interleaving of such sections and of the other steps of
the threads.

`server_run`: permits are neither lost nor given twice; the limiter sees the calls of all
connections one after the other, and the state the sections; and every connection is answered as
`replies` says, from the answers that the limiter gave to it and from what the others have done to
the state between its sections. -/

namespace Unitpm.Ipc

open Run

/-- `MaxConnections`. -/
def maxConnections : ℕ := 100

/-- What a call of `read_line` returns. -/
abbrev Line : Type := Except ReadError (Option (List UInt8))

/-! ### Handlers -/

/-- The registered handlers, as the sections they are made of. -/
abbrev SectionHandlers (σ : Type) : Type :=
  String → Option (Identity → RawMessage → Sections σ CallResult)

section Handlers

variable {σ : Type}

/-- The call of the dispatcher. -/
def respond (handlers : RawHandlers σ) (identity : Identity) (d : σ) (univ : UniversalRequest) :
    σ × Option Json :=
  if univ.kind = "start" then
    match dispatchStart (outcomes handlers) d identity univ with
    | (d, resp) => (d, some (StartResponse.shape.encode resp))
  else
    match dispatch (outcomes handlers) d identity univ with
    | (d', resp) => (d', if unwritable handlers identity d univ then none else some resp.toJson)

variable (handlers : SectionHandlers σ)

/-- The handlers as one thread knows them.  The state comes with the number of the sections that
the thread has been through; `others n` is what the others do to it before the one of number `n`. -/
def alone (others : ℕ → σ → σ) : RawHandlers (ℕ × σ) := fun command =>
  (handlers command).map fun handler s identity params => (handler identity params).exec others s

/-- The handler that the dispatcher calls. -/
def called (identity : Identity) (univ : UniversalRequest) : Option (Sections σ CallResult) :=
  if univ.kind = "start" then
    if univ.protocolVersion ≠ version then none
    else (handlers "start").map fun handler => handler identity (univ.spec.getD .empty)
  else if univ.version ≠ version then none
  else (handlers univ.command).map fun handler => handler identity (univ.params.getD .empty)

/-- What the dispatcher makes of the result of the handler, if it calls one. -/
def replyTo (identity : Identity) (univ : UniversalRequest) (result : CallResult) : Option Json :=
  (respond (fun command => (handlers command).map fun _ _ _ _ => ((), result)) identity () univ).2

variable {handlers} {identity : Identity} {univ : UniversalRequest}

/-- A dispatch is the run of the handler that it calls. -/
theorem respond_alone (others : ℕ → σ → σ) (s : ℕ × σ) :
    respond (alone handlers others) identity s univ =
      match called handlers identity univ with
      | none => (s, replyTo handlers identity univ .panicked)
      | some p =>
          ((p.exec others s).1, replyTo handlers identity univ (p.exec others s).2) := by
  unfold replyTo respond called
  by_cases hkind : univ.kind = "start"
  · simp only [hkind, if_true]
    by_cases hversion : univ.protocolVersion = version
    · cases hstart : handlers "start" with
      | none => simp [dispatchStart, hversion, outcomes, alone, hstart]
      | some handler => simp [dispatchStart, hversion, outcomes, alone, hstart]
    · simp [dispatchStart, hversion]
  · simp only [hkind, if_false]
    by_cases hversion : univ.version = version
    · cases hcommand : handlers univ.command with
      | none => simp [dispatch, unwritable, hversion, outcomes, alone, hcommand]
      | some handler =>
          simp only [dispatch, unwritable, hversion, outcomes, alone, hcommand, Option.map_some,
            ne_eq, not_true_eq_false, if_false]
          rcases (handler identity (univ.params.getD .empty)).exec others s with ⟨s', result⟩
          cases result <;> rfl
    · simp [dispatch, unwritable, hversion]

end Handlers

/-! ### Threads -/

/-- How far the thread of a connection has come.  `calling` has what is left of the handler.  The
flags of `writing` say whether the loop goes on after the reply is written, and whether it does
although it cannot be written. -/
inductive Stage (σ : Type) where
  | reading
  | limiting (univ : UniversalRequest)
  | calling (univ : UniversalRequest) (rest : Sections σ CallResult)
  | writing (reply : Json) (again anyway : Bool)
  | returned
  | closed

section Stages

variable {σ : Type}

def Stage.isClosed : Stage σ → Bool
  | .closed => true
  | _ => false

/-- `handle_connection` has ended. -/
def Stage.Ended : Stage σ → Prop
  | .returned | .closed => True
  | _ => False

instance : DecidablePred (Stage.Ended (σ := σ))
  | .returned | .closed => isTrue trivial
  | .reading | .limiting _ | .calling _ _ | .writing _ _ _ => isFalse id

/-- The dispatcher has returned. -/
def Stage.answering : Option Json → Stage σ
  | none => .returned
  | some reply => .writing reply true false

/-- The dispatcher is called. -/
def Stage.dispatched (handlers : SectionHandlers σ) (identity : Identity)
    (univ : UniversalRequest) : Stage σ :=
  match called handlers identity univ with
  | none => .answering (replyTo handlers identity univ .panicked)
  | some rest => .calling univ rest

end Stages

/-- A connection that was given a permit: the peer, what `read_line` returns call by call, how often
it was called, and the replies that were written. -/
structure Conn (σ : Type) where
  identity : Identity
  arrives : List Line
  read : ℕ := 0
  stage : Stage σ := .reading
  output : List Json := []

/-- What is shared.  `count` is the one of `ConnCap`. -/
structure Server (σ : Type) where
  count : ℕ := maxConnections
  conns : List (Conn σ) := []
  limiter : RateLimit.Inner
  state : σ

/-- What others see of a step: a call of the limiter, a section of a handler, and a change that is
no request's. -/
inductive Event (σ : Type) where
  | asked (i : ℕ) (call : RateLimit.Call) (granted : Bool)
  | locked (i : ℕ) (change : σ → σ)
  | changed (change : σ → σ)

/-- One thing that happens.  `fail i`: the thread of connection `i` panics outside a handler, or one
of the calls fails that `handle_connection` makes for the identity of the peer, for a second handle
of the stream and for its timeouts. -/
inductive Server.Act (σ : Type) where
  | accept (identity : Identity) (arrives : List Line)
  | advance (i : ℕ) (now : ℚ) (written : Bool)
  | fail (i : ℕ)
  | other (change : σ → σ)

section Threads

variable {σ : Type} (handlers : SectionHandlers σ)
  (unmarshal : List UInt8 → Option UniversalRequest) (earliest : Option ℚ)

namespace Conn

/-- A call of `read_line`, and the line read as a request. -/
def readLine (c : Conn σ) : Conn σ :=
  let c' := { c with read := c.read + 1 }
  match c.arrives[c.read]? with
  | none => { c with stage := .returned }
  | some (.error .tooLong) =>
      { c' with stage := .writing (errorReply "" "ERR_LIMITS" "Message too large") false false }
  | some (.ok none) => { c' with stage := .returned }
  | some (.ok (some line)) =>
      match unmarshal line with
      | none =>
          { c' with stage := .writing (errorReply "" "ERR_BAD_REQUEST" "Invalid JSON") false false }
      | some univ => { c' with stage := .limiting univ }

/-- The writes of a reply. -/
def write (reply : Json) (again anyway written : Bool) (c : Conn σ) : Conn σ :=
  if written then
    { c with
      output := c.output ++ [reply]
      stage := if again then .reading else .returned }
  else { c with stage := if anyway then .reading else .returned }

end Conn

namespace Server

def put (i : ℕ) (c : Conn σ) (s : Server σ) : Server σ := { s with conns := s.conns.set i c }

/-- The call of the limiter. -/
def limit (i : ℕ) (now : ℚ) (univ : UniversalRequest) (c : Conn σ) (s : Server σ) :
    Server σ × List (Event σ) :=
  let c' := { c with stage := .dispatched handlers c.identity univ }
  match Rust.Str.parseUnsigned (2 ^ 32 - 1) c.identity.uid.toList with
  | none => (s.put i c', [])
  | some uid =>
      let call : RateLimit.Call := (UInt32.ofNat uid, now)
      match RateLimit.call earliest s.limiter call with
      | (limiter, true) => ({ s.put i c' with limiter := limiter }, [.asked i call true])
      | (limiter, false) =>
          let reply := errorReply univ.id "ERR_RATE_LIMIT" "IPC rate limit exceeded for this UID"
          ({ s.put i { c with stage := .writing reply true true } with limiter := limiter },
            [.asked i call false])

/-- The next section of the handler, or its return. -/
def handle (i : ℕ) (univ : UniversalRequest) (c : Conn σ) (s : Server σ) :
    Sections σ CallResult → Server σ × List (Event σ)
  | .done result =>
      (s.put i { c with stage := .answering (replyTo handlers c.identity univ result) }, [])
  | .lock change next =>
      ({ s.put i { c with stage := .calling univ (next s.state) } with state := change s.state },
        [.locked i change])

/-- The next step of the thread of connection `i`. -/
def advance (i : ℕ) (now : ℚ) (written : Bool) (c : Conn σ) (s : Server σ) :
    Server σ × List (Event σ) :=
  match c.stage with
  | .reading => (s.put i (c.readLine unmarshal), [])
  | .limiting univ => s.limit handlers earliest i now univ c
  | .calling univ rest => s.handle handlers i univ c rest
  | .writing reply again anyway => (s.put i (c.write reply again anyway written), [])
  | .returned => ({ s.put i { c with stage := .closed } with count := s.count + 1 }, [])
  | .closed => (s, [])

/-- `try_acquire` for a connection that is accepted; without a permit it is shut down. -/
def accept (identity : Identity) (arrives : List Line) (s : Server σ) : Server σ :=
  match s.count with
  | 0 => s
  | count + 1 =>
      { s with
        count := count
        conns := s.conns ++ [{ identity := identity, arrives := arrives }] }

/-- The end of `handle_connection` where it fails or panics. -/
def giveUp (i : ℕ) (c : Conn σ) (s : Server σ) : Server σ :=
  if c.stage.isClosed then s else s.put i { c with stage := .returned }

def step (s : Server σ) : Act σ → Server σ × List (Event σ)
  | .accept identity arrives => (s.accept identity arrives, [])
  | .advance i now written =>
      match s.conns[i]? with
      | none => (s, [])
      | some c => s.advance handlers unmarshal earliest i now written c
  | .fail i =>
      match s.conns[i]? with
      | none => (s, [])
      | some c => (s.giveUp i c, [])
  | .other change => ({ s with state := change s.state }, [.changed change])

/-- Everything that others see of a run. -/
def trace (s : Server σ) (acts : List (Act σ)) : List (Event σ) :=
  (outputs (step handlers unmarshal earliest) s acts).flatten

/-- The connections whose permit has not been dropped. -/
def live (s : Server σ) : ℕ := s.conns.countP fun c => !c.stage.isClosed

end Server

end Threads

/-! ### What a connection sees of a run -/

section Views

variable {σ : Type}

/-- What a step does to the state. -/
def Event.change : Event σ → σ → σ
  | .asked _ _ _ => id
  | .locked _ change => change
  | .changed change => change

/-- The call of the limiter, with its answer. -/
def Event.call? : Event σ → Option (RateLimit.Call × Bool)
  | .asked _ call granted => some (call, granted)
  | _ => none

/-- The answer of the limiter to connection `i`. -/
def Event.answer? (i : ℕ) : Event σ → Option Bool
  | .asked j _ granted => if j = i then some granted else none
  | _ => none

/-- A section of a handler of connection `i`. -/
def Event.isSection (i : ℕ) : Event σ → Bool
  | .locked j _ => j = i
  | _ => false

/-- The answer of the limiter to the `n`-th request of connection `i`. -/
def allowed (i : ℕ) (evs : List (Event σ)) (n : ℕ) : Bool :=
  (evs.filterMap (Event.answer? i))[n]?.getD true

/-- What is done to the state before section number `n` of connection `i`, after the one before. -/
def between (i : ℕ) : List (Event σ) → ℕ → σ → σ
  | [], _ => id
  | e :: evs, 0 => if e.isSection i then id else between i evs 0 ∘ e.change
  | e :: evs, n + 1 => if e.isSection i then between i evs n else between i evs (n + 1)

/-- The rest of the loop after a dispatch. -/
def afterwards (rest : ℕ × σ → List Json) (r : (ℕ × σ) × Option Json) : List Json :=
  match r.2 with
  | none => []
  | some reply => reply :: rest r.1

variable (handlers : SectionHandlers σ) (unmarshal : List UInt8 → Option UniversalRequest)

/-- The replies on a connection, where `others n` is done to the state before section number `n` of
its handlers. -/
def repliesAlone (identity : Identity) (allow : ℕ → Bool) (others : ℕ → σ → σ) (n : ℕ)
    (results : List Line) (s : ℕ × σ) : List Json :=
  replies (alone handlers others) identity allow (fun _ => id) unmarshal n s results

/-- What the thread of a connection will still write if nothing fails. -/
def Conn.toCome (allow : ℕ → Bool) (others : ℕ → σ → σ) (d : σ) (c : Conn σ) : List Json :=
  let rest n := repliesAlone handlers unmarshal c.identity allow others n (c.arrives.drop c.read)
  match c.stage with
  | .reading => rest 0 (0, d)
  | .limiting univ =>
      afterwards (rest 1)
        (serve (alone handlers others) c.identity allow (fun _ => id) 0 (0, d) univ)
  | .calling univ p =>
      let r := p.exec others (0, d)
      afterwards (rest 0) (r.1, replyTo handlers c.identity univ r.2)
  | .writing reply again _ => reply :: if again then rest 0 (0, d) else []
  | .returned | .closed => []

variable {handlers unmarshal} {identity : Identity} {allow allow' : ℕ → Bool}
  {others others' : ℕ → σ → σ} {s s' : ℕ × σ} {univ : UniversalRequest}

/-! ### Replies -/

theorem afterwards_congr {rest rest' : ℕ × σ → List Json} {r r' : (ℕ × σ) × Option Json}
    (hreply : r.2 = r'.2) (hrest : rest r.1 = rest' r'.1) :
    afterwards rest r = afterwards rest' r' := by
  rw [afterwards, afterwards, hreply, hrest]

theorem serve_eq (n : ℕ) (s : ℕ × σ) (univ : UniversalRequest) :
    serve (alone handlers others) identity allow (fun _ => id) n s univ =
      if rateLimited identity allow n then
        (s, some (errorReply univ.id "ERR_RATE_LIMIT" "IPC rate limit exceeded for this UID"))
      else respond (alone handlers others) identity s univ := rfl

theorem repliesAlone_line {line : List UInt8} (hline : unmarshal line = some univ) (n : ℕ)
    (s : ℕ × σ) (results : List Line) :
    repliesAlone handlers unmarshal identity allow others n (.ok (some line) :: results) s =
      afterwards (repliesAlone handlers unmarshal identity allow others (n + 1) results)
        (serve (alone handlers others) identity allow (fun _ => id) n s univ) := by
  rw [repliesAlone, replies_request hline]
  rcases serve (alone handlers others) identity allow (fun _ => id) n s univ
    with ⟨d', _ | reply⟩ <;>
    rfl

theorem respond_agree (h : Sections.Agree others others' s s') :
    (respond (alone handlers others) identity s univ).2 =
        (respond (alone handlers others') identity s' univ).2 ∧
      Sections.Agree others others' (respond (alone handlers others) identity s univ).1
        (respond (alone handlers others') identity s' univ).1 := by
  rw [respond_alone, respond_alone]
  cases called handlers identity univ with
  | none => exact ⟨rfl, h⟩
  | some p =>
      obtain ⟨hresult, hagree⟩ := Sections.exec_agree p h
      exact ⟨congrArg (replyTo handlers identity univ) hresult, hagree⟩

/-- The replies depend on the answers from the next request on, and on what the sections find. -/
theorem repliesAlone_agree {n m : ℕ}
    (hallow : ∀ j, rateLimited identity allow (n + j) = rateLimited identity allow' (m + j))
    (h : Sections.Agree others others' s s') (results : List Line) :
    repliesAlone handlers unmarshal identity allow others n results s =
      repliesAlone handlers unmarshal identity allow' others' m results s' := by
  induction results generalizing n m s s' with
  | nil => rfl
  | cons result results ih =>
      rcases result with ⟨⟩ | _ | line
      · rfl
      · rfl
      · cases hline : unmarshal line with
        | none =>
            conv_lhs => whnf
            conv_rhs => whnf
            rw [hline]
        | some univ =>
            have hrest : ∀ {s s'}, Sections.Agree others others' s s' →
                repliesAlone handlers unmarshal identity allow others (n + 1) results s =
                  repliesAlone handlers unmarshal identity allow' others' (m + 1) results s' :=
              ih fun j => by simpa only [Nat.add_assoc] using hallow (1 + j)
            have h0 := hallow 0
            rw [Nat.add_zero, Nat.add_zero] at h0
            rw [repliesAlone_line hline, repliesAlone_line hline, serve_eq, serve_eq, h0]
            split_ifs with hlimited
            · exact afterwards_congr rfl (hrest h)
            · obtain ⟨hreply, hagree⟩ := respond_agree h
              exact afterwards_congr hreply (hrest hagree)

/-- Agreeing changes let a connection write the same. -/
theorem toCome_agree (c : Conn σ) {d d' : σ} (h : Sections.Agree others others' (0, d) (0, d')) :
    c.toCome handlers unmarshal allow others d =
      c.toCome handlers unmarshal allow others' d' := by
  have hrest : ∀ {n s s'}, Sections.Agree others others' s s' →
      repliesAlone handlers unmarshal c.identity allow others n (c.arrives.drop c.read) s =
        repliesAlone handlers unmarshal c.identity allow others' n (c.arrives.drop c.read) s' :=
    fun h => repliesAlone_agree (fun _ => rfl) h _
  unfold Conn.toCome
  cases c.stage with
  | reading => exact hrest h
  | limiting univ =>
      simp only [serve_eq]
      split_ifs with hlimited
      · exact afterwards_congr rfl (hrest h)
      · obtain ⟨hreply, hagree⟩ := respond_agree h
        exact afterwards_congr hreply (hrest hagree)
  | calling univ p =>
      obtain ⟨hresult, hagree⟩ := Sections.exec_agree p h
      exact afterwards_congr (congrArg (replyTo handlers c.identity univ) hresult) (hrest hagree)
  | writing reply again anyway => simp only [hrest h]
  | returned => rfl
  | closed => rfl

theorem Conn.toCome_of_ended {c : Conn σ} (h : c.stage.Ended) (d : σ) :
    c.toCome handlers unmarshal allow others d = [] := by
  unfold toCome
  cases hstage : c.stage with
  | returned => rfl
  | closed => rfl
  | _ =>
      rw [hstage] at h
      exact h.elim

theorem toCome_dispatched (c : Conn σ) (d : σ) (univ : UniversalRequest) :
    ({ c with stage := .dispatched handlers c.identity univ } : Conn σ).toCome handlers unmarshal
        allow others d =
      afterwards
        (repliesAlone handlers unmarshal c.identity allow others 0 (c.arrives.drop c.read))
        (respond (alone handlers others) c.identity (0, d) univ) := by
  rw [respond_alone, Conn.toCome]
  simp only [Stage.dispatched]
  cases called handlers c.identity univ with
  | none =>
      cases replyTo handlers c.identity univ .panicked <;> rfl
  | some p => rfl

/-! ### Events -/

section Events

variable {i : ℕ} {e : Event σ} {evs : List (Event σ)}

/-- An event that is none of connection `i`'s. -/
structure Event.Foreign (i : ℕ) (e : Event σ) : Prop where
  answer : e.answer? i = none
  isSection : e.isSection i = false

theorem Event.Foreign.allowed (h : e.Foreign i) : allowed i (e :: evs) = allowed i evs := by
  funext n
  rw [Ipc.allowed, List.filterMap_cons_none h.answer]
  rfl

theorem between_zero (h : e.isSection i = false) :
    between i (e :: evs) 0 = between i evs 0 ∘ e.change := by
  rw [between, h]
  rfl

theorem between_succ (h : e.isSection i = false) (n : ℕ) :
    between i (e :: evs) (n + 1) = between i evs (n + 1) := by
  rw [between, h]
  rfl

theorem between_locked_zero (change : σ → σ) : between i (.locked i change :: evs) 0 = id := by
  rw [between]
  exact if_pos (decide_eq_true rfl)

theorem between_locked_succ (change : σ → σ) (n : ℕ) :
    between i (.locked i change :: evs) (n + 1) = between i evs n := by
  rw [between]
  exact if_pos (decide_eq_true rfl)

theorem between_asked (j : ℕ) (call : RateLimit.Call) (granted : Bool) :
    between i (.asked j call granted :: evs) = between i evs := by
  funext n
  cases n with
  | zero => exact between_zero rfl
  | succ n => exact between_succ rfl n

theorem allowed_zero (call : RateLimit.Call) (granted : Bool) :
    allowed i (.asked i call granted :: evs) 0 = granted := by
  rw [allowed, List.filterMap_cons, Event.answer?, if_pos rfl]
  rfl

theorem allowed_succ (call : RateLimit.Call) (granted : Bool) (n : ℕ) :
    allowed i (.asked i call granted :: evs) (n + 1) = allowed i evs n := by
  rw [allowed, List.filterMap_cons, Event.answer?, if_pos rfl]
  rfl

theorem agree_of_foreign (h : e.isSection i = false) (d : σ) :
    Sections.Agree (between i (e :: evs)) (between i evs) (0, d) (0, e.change d) where
  now := congrFun (between_zero h) d
  later n := by
    rw [Nat.zero_add, Nat.add_comm 1 n]
    exact between_succ h n

theorem agree_of_locked (change : σ → σ) (d : σ) :
    Sections.Agree (between i (.locked i change :: evs)) (between i evs) (1, d) (0, d) where
  now := congrFun (between_locked_succ change 0) d
  later n := by
    rw [Nat.add_comm (1 + 1) n, Nat.add_comm (0 + 1) n]
    exact between_locked_succ change (n + 1)

theorem toCome_foreign (c : Conn σ) {es : List (Event σ)} (hes : ∀ e ∈ es, e.Foreign i) (d : σ) :
    c.toCome handlers unmarshal (allowed i (es ++ evs)) (between i (es ++ evs)) d =
      c.toCome handlers unmarshal (allowed i evs) (between i evs)
        (es.foldl (fun d e => e.change d) d) := by
  induction es generalizing d with
  | nil => rfl
  | cons e es ih =>
      obtain ⟨he, hes⟩ := List.forall_mem_cons.mp hes
      rw [List.cons_append, he.allowed, toCome_agree c (agree_of_foreign he.isSection d), ih hes,
        List.foldl_cons]

end Events

end Views

/-! ### One step -/

@[simp] theorem Server.put_state {σ : Type} (i : ℕ) (c : Conn σ) (s : Server σ) :
    (s.put i c).state = s.state := rfl

@[simp] theorem Server.put_count {σ : Type} (i : ℕ) (c : Conn σ) (s : Server σ) :
    (s.put i c).count = s.count := rfl

section Step

variable {σ : Type} (handlers : SectionHandlers σ)
  (unmarshal : List UInt8 → Option UniversalRequest) (earliest : Option ℚ) {s : Server σ}
  {c : Conn σ} {i : ℕ}

namespace Conn

theorem readLine_kept (c : Conn σ) :
    (c.readLine unmarshal).identity = c.identity ∧ (c.readLine unmarshal).arrives = c.arrives ∧
      (c.readLine unmarshal).output = c.output := by
  unfold readLine
  rcases c.arrives[c.read]? with _ | ⟨⟨⟩⟩ | _ | line
  · exact ⟨rfl, rfl, rfl⟩
  · exact ⟨rfl, rfl, rfl⟩
  · exact ⟨rfl, rfl, rfl⟩
  · simp only
    cases unmarshal line <;> exact ⟨rfl, rfl, rfl⟩

theorem toCome_readLine (hstage : c.stage = .reading) (allow : ℕ → Bool) (others : ℕ → σ → σ)
    (d : σ) : (c.readLine unmarshal).toCome handlers unmarshal allow others d =
      c.toCome handlers unmarshal allow others d := by
  have hreading : c.toCome handlers unmarshal allow others d =
      repliesAlone handlers unmarshal c.identity allow others 0 (c.arrives.drop c.read) (0, d) := by
    rw [toCome, hstage]
  rw [hreading, readLine]
  rcases hline : c.arrives[c.read]? with _ | line
  · rw [List.drop_eq_nil_of_le (List.getElem?_eq_none_iff.mp hline)]
    rfl
  · obtain ⟨hlt, rfl⟩ := List.getElem?_eq_some_iff.mp hline
    rw [List.drop_eq_getElem_cons hlt]
    rcases c.arrives[c.read] with ⟨⟩ | _ | line
    · rfl
    · rfl
    · cases hreq : unmarshal line with
      | none =>
          conv_rhs => whnf
          simp only [hreq]
          rfl
      | some univ =>
          rw [repliesAlone_line hreq]
          simp only [hreq]
          rfl

end Conn

/-- What a step of a thread does for its own connection: it may write something, and with that
everything it was to write is still to come. -/
structure Thread (handlers : SectionHandlers σ) (unmarshal : List UInt8 → Option UniversalRequest)
    (i : ℕ) (c : Conn σ) (s : Server σ) (r : Server σ × List (Event σ)) (c' : Conn σ) : Prop where
  conns : r.1.conns = s.conns.set i c'
  identity : c'.identity = c.identity
  arrives : c'.arrives = c.arrives
  toCome : ∀ evs, c'.output ++
      c'.toCome handlers unmarshal (allowed i evs) (between i evs) r.1.state =
    c.output ++
      c.toCome handlers unmarshal (allowed i (r.2 ++ evs)) (between i (r.2 ++ evs)) s.state

theorem toCome_limiting {univ : UniversalRequest} {allow allow' : ℕ → Bool} {others : ℕ → σ → σ}
    (hstage : c.stage = .limiting univ) (h0 : rateLimited c.identity allow 0 = false)
    (hallow : ∀ j, rateLimited c.identity allow (1 + j) = rateLimited c.identity allow' j) (d : σ) :
    c.toCome handlers unmarshal allow others d =
      ({ c with stage := .dispatched handlers c.identity univ } : Conn σ).toCome handlers unmarshal
        allow' others d := by
  have hrest : repliesAlone handlers unmarshal c.identity allow others 1 (c.arrives.drop c.read) =
      repliesAlone handlers unmarshal c.identity allow' others 0 (c.arrives.drop c.read) :=
    funext fun s => repliesAlone_agree (fun j => by rw [hallow, Nat.zero_add]) (.refl others s) _
  rw [toCome_dispatched, Conn.toCome, hstage]
  simp only [serve_eq, h0, Bool.false_eq_true, if_false, hrest]

theorem thread_limit {univ : UniversalRequest} (hstage : c.stage = .limiting univ) (now : ℚ) :
    ∃ c', Thread handlers unmarshal i c s (s.limit handlers earliest i now univ c) c' := by
  unfold Server.limit
  cases huid : Rust.Str.parseUnsigned (2 ^ 32 - 1) c.identity.uid.toList with
  | none =>
      -- the limiter is never asked
      have hnot : ∀ allow n, rateLimited c.identity allow n = false := by
        intro allow n
        rw [rateLimited, huid]
        rfl
      refine ⟨_, rfl, rfl, rfl, fun evs => ?_⟩
      exact congrArg (c.output ++ ·) (toCome_limiting handlers unmarshal hstage (hnot _ _)
        (fun j => by rw [hnot, hnot]) s.state).symm
  | some uid =>
      have hask : ∀ allow n, rateLimited c.identity allow n = !allow n := by
        intro allow n
        rw [rateLimited, huid]
        rfl
      simp only
      generalize ((UInt32.ofNat uid, now) : RateLimit.Call) = call
      rcases RateLimit.call earliest s.limiter call with ⟨limiter, _ | _⟩
      · refine ⟨_, rfl, rfl, rfl, fun evs => ?_⟩
        have hrest : repliesAlone handlers unmarshal c.identity
              (allowed i (.asked i call false :: evs)) (between i evs) 1 (c.arrives.drop c.read) =
            repliesAlone handlers unmarshal c.identity (allowed i evs) (between i evs) 0
              (c.arrives.drop c.read) :=
          funext fun s => repliesAlone_agree
            (fun j => by rw [hask, hask, Nat.add_comm 1 j, allowed_succ, Nat.zero_add])
            (.refl _ s) _
        simp only [Conn.toCome, hstage, serve_eq, hask, List.singleton_append, allowed_zero,
          between_asked, hrest, Bool.not_false, if_true, afterwards, Server.put_state]
      · refine ⟨_, rfl, rfl, rfl, fun evs => ?_⟩
        rw [List.singleton_append, between_asked]
        exact congrArg (c.output ++ ·) (toCome_limiting handlers unmarshal hstage
          (by rw [hask, allowed_zero]; rfl)
          (fun j => by rw [hask, hask, Nat.add_comm 1 j, allowed_succ]) s.state).symm

theorem thread_handle {univ : UniversalRequest} {rest : Sections σ CallResult}
    (hstage : c.stage = .calling univ rest) :
    ∃ c', Thread handlers unmarshal i c s (s.handle handlers i univ c rest) c' := by
  cases rest with
  | done result =>
      refine ⟨_, rfl, rfl, rfl, fun evs => congrArg (c.output ++ ·) ?_⟩
      simp only [Conn.toCome, hstage, Sections.exec, Stage.answering, Server.put_state,
        List.nil_append, Server.handle]
      cases replyTo handlers c.identity univ result <;> rfl
  | lock change next =>
      refine ⟨_, rfl, rfl, rfl, fun evs => congrArg (c.output ++ ·) ?_⟩
      obtain ⟨hresult, hagree⟩ := Sections.exec_agree (next s.state)
        (@agree_of_locked _ i evs change (change s.state))
      have hexec : (Sections.lock change next).exec
            (between i (.locked i change :: evs)) (0, s.state) =
          (next s.state).exec (between i (.locked i change :: evs)) (1, change s.state) := by
        rw [Sections.exec, between_locked_zero]
        rfl
      simp only [Conn.toCome, hstage, Server.handle, List.singleton_append, hexec]
      exact (afterwards_congr (congrArg (replyTo handlers c.identity univ) hresult)
        (repliesAlone_agree (fun _ => rfl) hagree _)).symm

/-- **One step of a thread** whose writes succeed. -/
theorem thread_advance (hc : s.conns[i]? = some c) (now : ℚ) :
    ∃ c', Thread handlers unmarshal i c s
      (s.advance handlers unmarshal earliest i now true c) c' := by
  unfold Server.advance
  cases hstage : c.stage with
  | reading =>
      obtain ⟨hid, harr, hout⟩ := c.readLine_kept unmarshal
      refine ⟨_, rfl, hid, harr, fun evs => ?_⟩
      rw [hout, Conn.toCome_readLine handlers unmarshal hstage]
      rfl
  | limiting univ => exact thread_limit handlers unmarshal earliest hstage now
  | calling univ rest => exact thread_handle handlers unmarshal hstage
  | writing reply again anyway =>
      refine ⟨_, rfl, rfl, rfl, fun evs => ?_⟩
      cases again <;> simp [Conn.toCome, Conn.write, Server.put_state, hstage]
  | returned => exact ⟨_, rfl, rfl, rfl, fun evs => by simp [Conn.toCome, hstage]⟩
  | closed =>
      refine ⟨c, ?_, rfl, rfl, fun evs => by simp [Conn.toCome, hstage]⟩
      obtain ⟨hlt, rfl⟩ := List.getElem?_eq_some_iff.mp hc
      rw [List.set_getElem_self]

/-! ### What a step can do -/

/-- The end of `handle_connection`. -/
def Conn.returns (c : Conn σ) : Conn σ := { c with stage := .returned }

/-- What a step of its thread can make of a connection. -/
def Conn.Next (c c' : Conn σ) : Prop :=
  match c.stage with
  | .reading => c' = c.readLine unmarshal ∨ c' = c.returns
  | .limiting univ =>
      c' = { c with stage := .dispatched handlers c.identity univ } ∨
        (∃ reply, c' = { c with stage := .writing reply true true }) ∨ c' = c.returns
  | .calling univ (.done result) =>
      c' = { c with stage := .answering (replyTo handlers c.identity univ result) } ∨
        c' = c.returns
  | .calling univ (.lock _ next) =>
      (∃ d, c' = { c with stage := .calling univ (next d) }) ∨ c' = c.returns
  | .writing reply again anyway =>
      (∃ written, c' = c.write reply again anyway written) ∨ c' = c.returns
  | .returned => c' = { c with stage := .closed }
  | .closed => False

theorem Conn.next_returns (h : ¬ c.stage.Ended) : c.Next handlers unmarshal c.returns := by
  unfold Next
  cases hstage : c.stage with
  | reading => exact .inr rfl
  | limiting univ => exact .inr (.inr rfl)
  | calling univ rest => cases rest <;> exact .inr rfl
  | writing reply again anyway => exact .inr rfl
  | returned => exact absurd (by rw [hstage]; trivial) h
  | closed => exact absurd (by rw [hstage]; trivial) h

/-- A thread at the limiter asks it or not, and goes on with the request or with a reply. -/
theorem limit_cases (i : ℕ) (now : ℚ) (univ : UniversalRequest) (c : Conn σ) (s : Server σ) :
    s.limit handlers earliest i now univ c =
        (s.put i { c with stage := .dispatched handlers c.identity univ }, []) ∨
      ∃ call stage,
        (stage = .dispatched handlers c.identity univ ∨ ∃ reply, stage = .writing reply true true) ∧
        s.limit handlers earliest i now univ c =
          ({ s.put i { c with stage := stage } with
              limiter := (RateLimit.call earliest s.limiter call).1 },
            [.asked i call (RateLimit.call earliest s.limiter call).2]) := by
  unfold Server.limit
  cases Rust.Str.parseUnsigned (2 ^ 32 - 1) c.identity.uid.toList with
  | none => exact .inl rfl
  | some uid =>
      right
      simp only
      generalize hcall : ((UInt32.ofNat uid, now) : RateLimit.Call) = call
      refine ⟨call, ?_⟩
      rcases RateLimit.call earliest s.limiter call with ⟨limiter, _ | _⟩
      · exact ⟨_, .inr ⟨_, rfl⟩, rfl⟩
      · exact ⟨_, .inl rfl, rfl⟩

/-- What a step of a thread does to what is shared: to the state and the limiter what its events
say, and a permit is dropped exactly if the connection is closed. -/
structure Shared (handlers : SectionHandlers σ) (unmarshal : List UInt8 → Option UniversalRequest)
    (earliest : Option ℚ) (i : ℕ) (c : Conn σ) (s : Server σ) (r : Server σ × List (Event σ))
    (c' : Conn σ) : Prop where
  conns : r.1.conns = s.conns.set i c'
  foreign : ∀ j, j ≠ i → ∀ e ∈ r.2, e.Foreign j
  state : r.1.state = r.2.foldl (fun d e => e.change d) s.state
  limiter : r.1.limiter =
    final (RateLimit.call earliest) s.limiter ((r.2.filterMap Event.call?).map Prod.fst)
  answers : (r.2.filterMap Event.call?).map Prod.snd =
    outputs (RateLimit.call earliest) s.limiter ((r.2.filterMap Event.call?).map Prod.fst)
  count : r.1.count + (if c'.stage.isClosed then 0 else 1) =
    s.count + if c.stage.isClosed then 0 else 1
  next : c' = c ∧ c.stage.isClosed = true ∨ c.Next handlers unmarshal c'

theorem foreign_of_asked {j : ℕ} (hij : i ≠ j) (call : RateLimit.Call) (granted : Bool) :
    (Event.asked (σ := σ) i call granted).Foreign j :=
  ⟨if_neg hij, rfl⟩

theorem isClosed_answering (reply : Option Json) :
    (Stage.answering (σ := σ) reply).isClosed = false := by
  cases reply <;> rfl

theorem isClosed_dispatched (identity : Identity) (univ : UniversalRequest) :
    (Stage.dispatched handlers identity univ).isClosed = false := by
  unfold Stage.dispatched
  cases called handlers identity univ with
  | none => exact isClosed_answering _
  | some rest => rfl

theorem Conn.isClosed_readLine (c : Conn σ) : (c.readLine unmarshal).stage.isClosed = false := by
  unfold readLine
  rcases c.arrives[c.read]? with _ | ⟨⟨⟩⟩ | _ | line
  · rfl
  · rfl
  · rfl
  · simp only
    cases unmarshal line <;> rfl

theorem shared_limit {univ : UniversalRequest} (hstage : c.stage = .limiting univ) (now : ℚ) :
    ∃ c', Shared handlers unmarshal earliest i c s
      (s.limit handlers earliest i now univ c) c' := by
  have hopen : c.stage.isClosed = false := by rw [hstage]; rfl
  obtain h | ⟨call, stage, hcase, h⟩ := limit_cases handlers earliest i now univ c s
  · rw [h]
    exact ⟨_, rfl, fun _ _ => List.forall_mem_nil _, rfl, rfl, rfl,
      by rw [isClosed_dispatched, hopen]; rfl, .inr (by rw [Conn.Next, hstage]; exact .inl rfl)⟩
  · rw [h]
    have hforeign : ∀ j, j ≠ i → ∀ e ∈ [Event.asked (σ := σ) i call
        (RateLimit.call earliest s.limiter call).2], e.Foreign j :=
      fun j hj => List.forall_mem_singleton.mpr (foreign_of_asked hj.symm ..)
    obtain rfl | ⟨reply, rfl⟩ := hcase
    · exact ⟨_, rfl, hforeign, rfl, rfl, rfl, by rw [isClosed_dispatched, hopen]; rfl,
        .inr (by rw [Conn.Next, hstage]; exact .inl rfl)⟩
    · exact ⟨_, rfl, hforeign, rfl, rfl, rfl, by rw [hopen]; rfl,
        .inr (by rw [Conn.Next, hstage]; exact .inr (.inl ⟨_, rfl⟩))⟩

theorem shared_handle {univ : UniversalRequest} {rest : Sections σ CallResult}
    (hstage : c.stage = .calling univ rest) :
    ∃ c', Shared handlers unmarshal earliest i c s (s.handle handlers i univ c rest) c' := by
  have hopen : c.stage.isClosed = false := by rw [hstage]; rfl
  cases rest with
  | done result =>
      exact ⟨_, rfl, fun _ _ => List.forall_mem_nil _, rfl, rfl, rfl,
        by rw [isClosed_answering, hopen]; rfl, .inr (by rw [Conn.Next, hstage]; exact .inl rfl)⟩
  | lock change next =>
      refine ⟨_, rfl, fun j hj => ?_, rfl, rfl, rfl, by rw [hopen]; rfl,
        .inr (by rw [Conn.Next, hstage]; exact .inl ⟨_, rfl⟩)⟩
      exact List.forall_mem_singleton.mpr ⟨rfl, decide_eq_false hj.symm⟩

/-- **One step of a thread**, for the others. -/
theorem shared_advance (hc : s.conns[i]? = some c) (now : ℚ) (written : Bool) :
    ∃ c', Shared handlers unmarshal earliest i c s
      (s.advance handlers unmarshal earliest i now written c) c' := by
  have hnil : ∀ j, j ≠ i → ∀ e ∈ ([] : List (Event σ)), e.Foreign j :=
    fun _ _ => List.forall_mem_nil _
  unfold Server.advance
  cases hstage : c.stage with
  | reading =>
      exact ⟨_, rfl, hnil, rfl, rfl, rfl, by rw [Conn.isClosed_readLine, hstage]; rfl,
        .inr (by rw [Conn.Next, hstage]; exact .inl rfl)⟩
  | limiting univ => exact shared_limit handlers unmarshal earliest hstage now
  | calling univ rest => exact shared_handle handlers unmarshal earliest hstage
  | writing reply again anyway =>
      refine ⟨_, rfl, hnil, rfl, rfl, rfl, ?_,
        .inr (by rw [Conn.Next, hstage]; exact .inl ⟨_, rfl⟩)⟩
      cases written <;> cases again <;> cases anyway <;>
        simp [Conn.write, hstage, Stage.isClosed]
  | returned =>
      exact ⟨_, rfl, hnil, rfl, rfl, rfl, by simp [hstage, Stage.isClosed],
        .inr (by rw [Conn.Next, hstage])⟩
  | closed =>
      obtain ⟨hlt, rfl⟩ := List.getElem?_eq_some_iff.mp hc
      exact ⟨_, (List.set_getElem_self hlt).symm, hnil, rfl, rfl, rfl, by simp [hstage],
        .inl ⟨rfl, by rw [hstage]; rfl⟩⟩

/-- Everything a step can do. -/
theorem step_cases (s : Server σ) (a : Server.Act σ) :
    ((∀ i now written, a = .advance i now written → s.conns[i]? = none) ∧
      s.step handlers unmarshal earliest a = (s, [])) ∨
    (∃ identity arrives count, a = .accept identity arrives ∧ s.count = count + 1 ∧
      s.step handlers unmarshal earliest a =
        ({ s with
            count := count
            conns := s.conns ++ [{ identity := identity, arrives := arrives }] }, [])) ∨
    (∃ i now written c, a = .advance i now written ∧ s.conns[i]? = some c ∧
      s.step handlers unmarshal earliest a =
        s.advance handlers unmarshal earliest i now written c) ∨
    (∃ i c, a = .fail i ∧ s.conns[i]? = some c ∧ c.stage.isClosed = false ∧
      s.step handlers unmarshal earliest a = (s.put i { c with stage := .returned }, [])) ∨
    ∃ change, a = .other change ∧ s.step handlers unmarshal earliest a =
      ({ s with state := change s.state }, [.changed change]) := by
  cases a with
  | accept identity arrives =>
      cases hcount : s.count with
      | zero =>
          exact .inl ⟨(fun _ _ _ h => by cases h),
            by simp only [Server.step, Server.accept, hcount]⟩
      | succ count =>
          exact .inr (.inl ⟨_, _, _, rfl, rfl, by simp only [Server.step, Server.accept, hcount]⟩)
  | advance i now written =>
      cases hc : s.conns[i]? with
      | none =>
          refine .inl ⟨fun j now written h => ?_, by simp only [Server.step, hc]⟩
          cases h
          exact hc
      | some c =>
          exact .inr (.inr (.inl ⟨i, now, written, c, rfl, hc, by simp only [Server.step, hc]⟩))
  | fail i =>
      cases hc : s.conns[i]? with
      | none => exact .inl ⟨(fun _ _ _ h => by cases h), by simp only [Server.step, hc]⟩
      | some c =>
          cases hclosed : c.stage.isClosed with
          | true =>
              exact .inl ⟨(fun _ _ _ h => by cases h),
                by simp only [Server.step, Server.giveUp, hc, hclosed, if_true]⟩
          | false =>
              refine .inr (.inr (.inr (.inl ⟨i, c, rfl, hc, hclosed, ?_⟩)))
              simp only [Server.step, Server.giveUp, hc, hclosed, Bool.false_eq_true, if_false]
  | other change => exact .inr (.inr (.inr (.inr ⟨change, rfl, rfl⟩)))

end Step

/-! ### Runs -/

section Runs

variable {σ : Type} (handlers : SectionHandlers σ)
  (unmarshal : List UInt8 → Option UniversalRequest) (earliest : Option ℚ) {s : Server σ}
  {a : Server.Act σ} {c : Conn σ} {i : ℕ}

/-- The calls of the limiter in a run, in the order in which it is locked. -/
def callsOf (evs : List (Event σ)) : List RateLimit.Call := (evs.filterMap Event.call?).map Prod.fst

def answersOf (evs : List (Event σ)) : List Bool := (evs.filterMap Event.call?).map Prod.snd

theorem callsOf_append (l m : List (Event σ)) : callsOf (l ++ m) = callsOf l ++ callsOf m := by
  simp only [callsOf, List.filterMap_append, List.map_append]

theorem answersOf_append (l m : List (Event σ)) :
    answersOf (l ++ m) = answersOf l ++ answersOf m := by
  simp only [answersOf, List.filterMap_append, List.map_append]

theorem step_shared (s : Server σ) (a : Server.Act σ) :
    let r := s.step handlers unmarshal earliest a
    r.1.state = r.2.foldl (fun d e => e.change d) s.state ∧
      r.1.limiter = final (RateLimit.call earliest) s.limiter (callsOf r.2) ∧
      answersOf r.2 = outputs (RateLimit.call earliest) s.limiter (callsOf r.2) := by
  intro r
  obtain ⟨-, h⟩ | ⟨_, _, _, -, -, h⟩ | ⟨i, now, written, c, -, hc, h⟩ | ⟨_, _, -, -, -, h⟩ |
    ⟨change, -, h⟩ := step_cases handlers unmarshal earliest s a
  · rw [show r = _ from h]
    exact ⟨rfl, rfl, rfl⟩
  · rw [show r = _ from h]
    exact ⟨rfl, rfl, rfl⟩
  · obtain ⟨c', hs⟩ := shared_advance handlers unmarshal earliest hc now written
    rw [← h] at hs
    exact ⟨hs.state, hs.limiter, hs.answers⟩
  · rw [show r = _ from h]
    exact ⟨rfl, rfl, rfl⟩
  · rw [show r = _ from h]
    exact ⟨rfl, rfl, rfl⟩

theorem live_of_set {t : Server σ} {c' : Conn σ} (hc : s.conns[i]? = some c)
    (ht : t.conns = s.conns.set i c') :
    t.live + (if c.stage.isClosed then 0 else 1) =
      s.live + if c'.stage.isClosed then 0 else 1 := by
  obtain ⟨hlt, rfl⟩ := List.getElem?_eq_some_iff.mp hc
  have hpos : s.conns[i].stage.isClosed = false →
      0 < s.conns.countP fun c => !c.stage.isClosed := fun hopen =>
    List.countP_pos_iff.mpr ⟨s.conns[i], List.getElem_mem hlt, by rw [hopen]; rfl⟩
  rw [Server.live, Server.live, ht, List.countP_set hlt]
  cases hopen : s.conns[i].stage.isClosed with
  | true => cases c'.stage.isClosed <;> simp
  | false =>
      have := hpos hopen
      cases c'.stage.isClosed <;> simp <;> omega

/-- **Permits** are neither lost nor made. -/
theorem step_permits (s : Server σ) (a : Server.Act σ) :
    (s.step handlers unmarshal earliest a).1.count + (s.step handlers unmarshal earliest a).1.live =
      s.count + s.live := by
  obtain ⟨-, h⟩ | ⟨identity, arrives, count, -, hcount, h⟩ | ⟨i, now, written, c, -, hc, h⟩ |
    ⟨i, c, -, hc, hopen, h⟩ | ⟨change, -, h⟩ := step_cases handlers unmarshal earliest s a
  · rw [h]
  · rw [h, hcount]
    simp [Server.live, Stage.isClosed]
    omega
  · obtain ⟨c', hs⟩ := shared_advance handlers unmarshal earliest hc now written
    rw [← h] at hs
    have hlive := live_of_set hc hs.conns
    have hcount := hs.count
    omega
  · rw [h]
    have hlive := live_of_set (t := s.put i { c with stage := .returned }) hc rfl
    rw [hopen] at hlive
    exact congrArg (s.count + ·) (Nat.add_right_cancel hlive)
  · rw [h]
    rfl

/-- The thread of connection `i` takes a step. -/
def Server.Act.advances (i : ℕ) : Server.Act σ → Bool
  | .advance j _ _ => j = i
  | _ => false

/-- What becomes of a connection in a step. -/
theorem step_conn (hc : s.conns[i]? = some c) (a : Server.Act σ) :
    ∃ c', (s.step handlers unmarshal earliest a).1.conns[i]? = some c' ∧
      (c' = c ∧ (a.advances i = true → c.stage.isClosed = true) ∨
        c.Next handlers unmarshal c') := by
  obtain ⟨hlt, hget⟩ := List.getElem?_eq_some_iff.mp hc
  obtain ⟨hidle, h⟩ | ⟨identity, arrives, count, rfl, hcount, h⟩ |
    ⟨j, now, written, b, rfl, hb, h⟩ | ⟨j, b, rfl, hb, hopen, h⟩ | ⟨change, rfl, h⟩ :=
    step_cases handlers unmarshal earliest s a
  · refine ⟨c, by rw [h]; exact hc, .inl ⟨rfl, fun hadv => ?_⟩⟩
    cases a with
    | advance j now written =>
        have hnone := hidle j now written rfl
        rw [of_decide_eq_true hadv, hc] at hnone
        cases hnone
    | _ => cases hadv
  · rw [h]
    exact ⟨c, by rw [List.getElem?_append_left hlt]; exact hc, .inl ⟨rfl, fun h => by cases h⟩⟩
  · obtain ⟨c', hs⟩ := shared_advance handlers unmarshal earliest hb now written
    rw [h, hs.conns]
    by_cases hji : j = i
    · subst hji
      obtain rfl := Option.some.inj (hb.symm.trans hc)
      exact ⟨c', List.getElem?_set_self hlt, hs.next.imp_left fun hn => ⟨hn.1, fun _ => hn.2⟩⟩
    · refine ⟨c, by rw [List.getElem?_set_ne hji]; exact hc, .inl ⟨rfl, fun hadv => ?_⟩⟩
      exact absurd (of_decide_eq_true hadv) hji
  · rw [h]
    by_cases hji : j = i
    · subst hji
      obtain rfl := Option.some.inj (hb.symm.trans hc)
      refine ⟨_, List.getElem?_set_self hlt, ?_⟩
      by_cases hreturned : b.stage = .returned
      · exact .inl ⟨by rw [← hreturned], fun h => by cases h⟩
      · refine .inr (Conn.next_returns handlers unmarshal ?_)
        cases hstage : b.stage with
        | returned => exact absurd hstage hreturned
        | closed => rw [hstage] at hopen; cases hopen
        | _ => exact id
    · exact ⟨c, by rw [Server.put, List.getElem?_set_ne hji]; exact hc,
        .inl ⟨rfl, fun h => by cases h⟩⟩
  · rw [h]
    exact ⟨c, hc, .inl ⟨rfl, fun h => by cases h⟩⟩

/-- What a connection has written and will write, if the events to come are `evs`. -/
def Conn.owes (handlers : SectionHandlers σ) (unmarshal : List UInt8 → Option UniversalRequest)
    (i : ℕ) (c : Conn σ) (d : σ) (evs : List (Event σ)) : List Json :=
  c.output ++ c.toCome handlers unmarshal (allowed i evs) (between i evs) d

theorem Conn.owes_foreign (c : Conn σ) {es : List (Event σ)} (hes : ∀ e ∈ es, e.Foreign i) (d : σ)
    (evs : List (Event σ)) :
    c.owes handlers unmarshal i (es.foldl (fun d e => e.change d) d) evs =
      c.owes handlers unmarshal i d (es ++ evs) := by
  rw [owes, owes, toCome_foreign c hes]

/-- The thread of connection `i` does not fail, and its writes succeed. -/
def Server.Act.Smooth (i : ℕ) : Server.Act σ → Prop
  | .advance j _ written => j = i → written = true
  | .fail j => j ≠ i
  | _ => True

/-- **One step** takes nothing from what a connection will have written, and adds nothing. -/
theorem step_owes (hc : s.conns[i]? = some c) (ha : a.Smooth i) :
    ∃ c', (s.step handlers unmarshal earliest a).1.conns[i]? = some c' ∧
      c'.identity = c.identity ∧ c'.arrives = c.arrives ∧
      ∀ evs, c'.owes handlers unmarshal i (s.step handlers unmarshal earliest a).1.state evs =
        c.owes handlers unmarshal i s.state
          ((s.step handlers unmarshal earliest a).2 ++ evs) := by
  obtain ⟨hlt, hget⟩ := List.getElem?_eq_some_iff.mp hc
  obtain ⟨-, h⟩ | ⟨identity, arrives, count, rfl, hcount, h⟩ | ⟨j, now, written, b, rfl, hb, h⟩ |
    ⟨j, b, rfl, hb, hopen, h⟩ | ⟨change, rfl, h⟩ := step_cases handlers unmarshal earliest s a
  · rw [h]
    exact ⟨c, hc, rfl, rfl, fun _ => rfl⟩
  · rw [h]
    exact ⟨c, by rw [List.getElem?_append_left hlt]; exact hc, rfl, rfl, fun _ => rfl⟩
  · by_cases hji : j = i
    · subst hji
      obtain rfl : written = true := ha rfl
      obtain rfl := Option.some.inj (hb.symm.trans hc)
      obtain ⟨c', ht⟩ := thread_advance handlers unmarshal earliest hb now
      rw [h]
      exact ⟨c', by rw [ht.conns]; exact List.getElem?_set_self hlt, ht.identity, ht.arrives,
        ht.toCome⟩
    · obtain ⟨b', hs⟩ := shared_advance handlers unmarshal earliest hb now written
      rw [h, hs.conns, hs.state]
      exact ⟨c, by rw [List.getElem?_set_ne hji]; exact hc, rfl, rfl,
        Conn.owes_foreign handlers unmarshal c (hs.foreign i fun hij => hji hij.symm) s.state⟩
  · have hji : j ≠ i := ha
    rw [h]
    exact ⟨c, by rw [Server.put, List.getElem?_set_ne hji]; exact hc, rfl, rfl, fun _ => rfl⟩
  · rw [h]
    refine ⟨c, hc, rfl, rfl, fun evs => ?_⟩
    exact Conn.owes_foreign handlers unmarshal c (List.forall_mem_singleton.mpr
      (show (Event.changed change).Foreign i from ⟨rfl, rfl⟩)) s.state evs

variable {acts : List (Server.Act σ)}

theorem trace_cons (s : Server σ) (a : Server.Act σ) (acts : List (Server.Act σ)) :
    s.trace handlers unmarshal earliest (a :: acts) =
      (s.step handlers unmarshal earliest a).2 ++
        (s.step handlers unmarshal earliest a).1.trace handlers unmarshal earliest acts := rfl

/-- **A run.** -/
theorem run_owes (hc : s.conns[i]? = some c) (hacts : ∀ a ∈ acts, a.Smooth i) :
    ∃ c', (final (Server.step handlers unmarshal earliest) s acts).conns[i]? = some c' ∧
      c'.identity = c.identity ∧ c'.arrives = c.arrives ∧
      c'.owes handlers unmarshal i (final (Server.step handlers unmarshal earliest) s acts).state []
        = c.owes handlers unmarshal i s.state (s.trace handlers unmarshal earliest acts) := by
  induction acts generalizing s c with
  | nil => exact ⟨c, hc, rfl, rfl, rfl⟩
  | cons a acts ih =>
      obtain ⟨ha, hacts⟩ := List.forall_mem_cons.mp hacts
      obtain ⟨b, hb, hid, harr, hstep⟩ := step_owes handlers unmarshal earliest hc ha
      obtain ⟨c', hc', hid', harr', hrun⟩ := ih hb hacts
      exact ⟨c', hc', hid'.trans hid, harr'.trans harr, by rw [trace_cons, ← hstep]; exact hrun⟩

/-- Before connection `i` is there, nothing is its doing. -/
theorem step_absent (hi : s.conns.length ≤ i) (a : Server.Act σ) :
    ((s.step handlers unmarshal earliest a).1.conns.length ≤ i ∨
      ∃ identity arrives, (s.step handlers unmarshal earliest a).1.conns[i]? =
        some { identity := identity, arrives := arrives }) ∧
    ∀ e ∈ (s.step handlers unmarshal earliest a).2, e.Foreign i := by
  have hne : ∀ {j : ℕ} {b : Conn σ}, s.conns[j]? = some b → i ≠ j := by
    rintro j b hb rfl
    rw [List.getElem?_eq_none hi] at hb
    cases hb
  have hnil : ∀ e ∈ ([] : List (Event σ)), e.Foreign i := List.forall_mem_nil _
  obtain ⟨-, h⟩ | ⟨identity, arrives, count, rfl, hcount, h⟩ | ⟨j, now, written, b, rfl, hb, h⟩ |
    ⟨j, b, rfl, hb, hopen, h⟩ | ⟨change, rfl, h⟩ := step_cases handlers unmarshal earliest s a
  · rw [h]
    exact ⟨.inl hi, hnil⟩
  · rw [h]
    refine ⟨?_, hnil⟩
    rcases Nat.eq_or_lt_of_le hi with rfl | hlt
    · exact .inr ⟨identity, arrives, List.getElem?_concat_length⟩
    · exact .inl (by simpa using Nat.succ_le_of_lt hlt)
  · obtain ⟨b', hs⟩ := shared_advance handlers unmarshal earliest hb now written
    rw [h]
    exact ⟨.inl (by rw [hs.conns, List.length_set]; exact hi), hs.foreign i (hne hb)⟩
  · rw [h]
    exact ⟨.inl (by rw [Server.put, List.length_set]; exact hi), hnil⟩
  · rw [h]
    exact ⟨.inl hi, List.forall_mem_singleton.mpr ⟨rfl, rfl⟩⟩

/-- The connections that are accepted in a run are answered as if they had been there before. -/
theorem run_accepted (hi : s.conns.length ≤ i) (hacts : ∀ a ∈ acts, a.Smooth i) {c' : Conn σ}
    (hc' : (final (Server.step handlers unmarshal earliest) s acts).conns[i]? = some c') :
    c'.owes handlers unmarshal i (final (Server.step handlers unmarshal earliest) s acts).state [] =
      ({ identity := c'.identity, arrives := c'.arrives } : Conn σ).owes handlers unmarshal i
        s.state (s.trace handlers unmarshal earliest acts) := by
  induction acts generalizing s with
  | nil =>
      rw [show final (Server.step handlers unmarshal earliest) s [] = s from rfl,
        List.getElem?_eq_none hi] at hc'
      cases hc'
  | cons a acts ih =>
      obtain ⟨ha, hacts⟩ := List.forall_mem_cons.mp hacts
      obtain ⟨hcase, hforeign⟩ := step_absent handlers unmarshal earliest hi a
      obtain ⟨hstate, -, -⟩ := step_shared handlers unmarshal earliest s a
      rw [trace_cons, ← Conn.owes_foreign handlers unmarshal _ hforeign, ← hstate]
      rcases hcase with hi' | ⟨identity, arrives, hnew⟩
      · exact ih hi' hacts hc'
      · obtain ⟨c, hc, hid, harr, hrun⟩ := run_owes handlers unmarshal earliest hnew hacts
        obtain rfl := Option.some.inj (hc.symm.trans hc')
        rw [hid, harr]
        exact hrun

theorem run_shared (s : Server σ) (acts : List (Server.Act σ)) :
    let t := final (Server.step handlers unmarshal earliest) s acts
    let evs := s.trace handlers unmarshal earliest acts
    t.state = evs.foldl (fun d e => e.change d) s.state ∧
      t.limiter = final (RateLimit.call earliest) s.limiter (callsOf evs) ∧
      answersOf evs = outputs (RateLimit.call earliest) s.limiter (callsOf evs) := by
  induction acts generalizing s with
  | nil => exact ⟨rfl, rfl, rfl⟩
  | cons a acts ih =>
      obtain ⟨hstate, hlimiter, hanswers⟩ := step_shared handlers unmarshal earliest s a
      obtain ⟨ihstate, ihlimiter, ihanswers⟩ := ih (s.step handlers unmarshal earliest a).1
      refine ⟨?_, ?_, ?_⟩
      · rw [trace_cons, List.foldl_append, ← hstate]
        exact ihstate
      · rw [trace_cons, callsOf_append, final_append, ← hlimiter]
        exact ihlimiter
      · rw [trace_cons, answersOf_append, callsOf_append, outputs_append, hanswers, ← hlimiter,
          ihanswers]

/-- **Permits in a run.** -/
theorem run_permits (s : Server σ) (acts : List (Server.Act σ)) :
    (final (Server.step handlers unmarshal earliest) s acts).count +
      (final (Server.step handlers unmarshal earliest) s acts).live = s.count + s.live := by
  induction acts generalizing s with
  | nil => rfl
  | cons a acts ih => exact (ih _).trans (step_permits handlers unmarshal earliest s a)

/-- Nobody connects. -/
def Server.Act.IsAccept : Server.Act σ → Prop
  | .accept _ _ => True
  | _ => False

theorem step_length (ha : ¬ a.IsAccept) :
    (s.step handlers unmarshal earliest a).1.conns.length = s.conns.length := by
  obtain ⟨-, h⟩ | ⟨identity, arrives, count, rfl, hcount, h⟩ |
    ⟨j, now, written, b, rfl, hb, h⟩ | ⟨j, b, rfl, hb, hopen, h⟩ | ⟨change, rfl, h⟩ :=
    step_cases handlers unmarshal earliest s a
  · rw [h]
  · exact absurd trivial ha
  · obtain ⟨b', hs⟩ := shared_advance handlers unmarshal earliest hb now written
    rw [h, hs.conns, List.length_set]
  · rw [h, Server.put, List.length_set]
  · rw [h]

/-! ### Schedules that do not end -/

theorem Conn.readLine_cases (c : Conn σ) :
    (c.readLine unmarshal).stage = .returned ∨
      (c.readLine unmarshal).arrives.length - (c.readLine unmarshal).read <
        c.arrives.length - c.read := by
  unfold readLine
  rcases hline : c.arrives[c.read]? with _ | line
  · exact .inl rfl
  · have hlt := (List.getElem?_eq_some_iff.mp hline).1
    right
    rcases line with ⟨⟩ | _ | line
    · simp only
      omega
    · simp only
      omega
    · simp only
      cases unmarshal line <;> (simp only; omega)

theorem acc_of_closed {c : Conn σ} (hc : c.stage = .closed) :
    Acc (fun c' c => Conn.Next handlers unmarshal c c') c := by
  refine ⟨_, fun c' h => ?_⟩
  rw [Conn.Next, hc] at h
  exact h.elim

theorem acc_of_returned {c : Conn σ} (hc : c.stage = .returned) :
    Acc (fun c' c => Conn.Next handlers unmarshal c c') c := by
  refine ⟨_, fun c' h => ?_⟩
  rw [Conn.Next, hc] at h
  exact acc_of_closed handlers unmarshal (by rw [h])

/-- What is left of a handler comes to its end, by induction on it. -/
theorem acc_of_calling {k : ℕ} (univ : UniversalRequest)
    (hanswering : ∀ (c : Conn σ) reply, c.arrives.length - c.read = k →
      c.stage = .answering reply → Acc (fun c' c => Conn.Next handlers unmarshal c c') c)
    (rest : Sections σ CallResult) {c : Conn σ} (hk : c.arrives.length - c.read = k)
    (hc : c.stage = .calling univ rest) :
    Acc (fun c' c => Conn.Next handlers unmarshal c c') c := by
  induction rest generalizing c with
  | done result =>
      refine ⟨_, fun c' h => ?_⟩
      rw [Conn.Next, hc] at h
      rcases h with rfl | rfl
      · exact hanswering _ _ hk rfl
      · exact acc_of_returned handlers unmarshal rfl
  | lock change next ih =>
      refine ⟨_, fun c' h => ?_⟩
      rw [Conn.Next, hc] at h
      rcases h with ⟨d, rfl⟩ | rfl
      · exact ih d hk rfl
      · exact acc_of_returned handlers unmarshal rfl

/-- **Every thread comes to its end**, by induction on the lines that are left. -/
theorem acc_next (c : Conn σ) : Acc (fun c' c => Conn.Next handlers unmarshal c c') c := by
  have hreturned : ∀ c : Conn σ, c.stage = .returned →
      Acc (fun c' c => Conn.Next handlers unmarshal c c') c :=
    fun _ => acc_of_returned handlers unmarshal
  induction hk : c.arrives.length - c.read using Nat.strong_induction_on generalizing c with
  | _ k ih =>
    have hreading : ∀ c : Conn σ, c.arrives.length - c.read = k → c.stage = .reading →
        Acc (fun c' c => Conn.Next handlers unmarshal c c') c := by
      refine fun c hk hc => ⟨_, fun c' h => ?_⟩
      rw [Conn.Next, hc] at h
      rcases h with rfl | rfl
      · rcases c.readLine_cases unmarshal with hend | hless
        · exact hreturned _ hend
        · exact ih _ (hk ▸ hless) _ rfl
      · exact hreturned _ rfl
    have hwriting : ∀ (c : Conn σ) reply again anyway, c.arrives.length - c.read = k →
        c.stage = .writing reply again anyway →
        Acc (fun c' c => Conn.Next handlers unmarshal c c') c := by
      refine fun c reply again anyway hk hc => ⟨_, fun c' h => ?_⟩
      rw [Conn.Next, hc] at h
      rcases h with ⟨written, rfl⟩ | rfl
      · cases written <;> cases again <;> cases anyway <;>
          first | exact hreturned _ rfl | exact hreading _ hk rfl
      · exact hreturned _ rfl
    have hanswering : ∀ (c : Conn σ) reply, c.arrives.length - c.read = k →
        c.stage = .answering reply →
        Acc (fun c' c => Conn.Next handlers unmarshal c c') c := by
      intro c reply hk hc
      cases reply with
      | none => exact hreturned c hc
      | some reply => exact hwriting c reply true false hk hc
    cases hstage : c.stage with
    | reading => exact hreading c hk hstage
    | limiting univ =>
        refine ⟨_, fun c' h => ?_⟩
        rw [Conn.Next, hstage] at h
        rcases h with rfl | ⟨reply, rfl⟩ | rfl
        · cases hcalled : called handlers c.identity univ with
          | none =>
              exact hanswering _ (replyTo handlers c.identity univ .panicked) hk
                (by simp only [Stage.dispatched, hcalled])
          | some rest =>
              exact acc_of_calling handlers unmarshal univ hanswering rest hk
                (by simp only [Stage.dispatched, hcalled])
        · exact hwriting _ reply true true hk rfl
        · exact hreturned _ rfl
    | calling univ rest =>
        exact acc_of_calling handlers unmarshal univ hanswering rest hk hstage
    | writing reply again anyway => exact hwriting c reply again anyway hk hstage
    | returned => exact hreturned c hstage
    | closed => exact acc_of_closed handlers unmarshal hstage

/-- The server after so many steps of a schedule. -/
def Server.after (s : Server σ) (acts : ℕ → Server.Act σ) (n : ℕ) : Server σ :=
  final (Server.step handlers unmarshal earliest) s ((List.range n).map acts)

theorem Server.after_succ (s : Server σ) (acts : ℕ → Server.Act σ) (n : ℕ) :
    s.after handlers unmarshal earliest acts (n + 1) =
      ((s.after handlers unmarshal earliest acts n).step handlers unmarshal earliest
        (acts n)).1 := by
  rw [after, List.range_succ, List.map_append, final_append]
  rfl

variable {schedule : ℕ → Server.Act σ}

theorem exists_next {n k : ℕ}
    (hc : (s.after handlers unmarshal earliest schedule n).conns[i]? = some c)
    (hopen : c.stage.isClosed = false) (hadv : (schedule (n + k)).advances i = true) :
    ∃ m c', (s.after handlers unmarshal earliest schedule m).conns[i]? = some c' ∧
      c.Next handlers unmarshal c' := by
  induction k generalizing n with
  | zero =>
      obtain ⟨c', hc', ⟨-, hclosed⟩ | hnext⟩ :=
        step_conn handlers unmarshal earliest hc (schedule n)
      · rw [hclosed hadv] at hopen
        cases hopen
      · exact ⟨n + 1, c', by rw [Server.after_succ]; exact hc', hnext⟩
  | succ k ih =>
      obtain ⟨c', hc', ⟨rfl, -⟩ | hnext⟩ := step_conn handlers unmarshal earliest hc (schedule n)
      · refine ih (by rw [Server.after_succ]; exact hc') ?_
        rwa [Nat.add_right_comm]
      · exact ⟨n + 1, c', by rw [Server.after_succ]; exact hc', hnext⟩

/-- **Every connection is closed some day** if its thread is not forgotten. -/
theorem exists_closed (hfair : ∀ n, ∃ k, (schedule (n + k)).advances i = true) {n : ℕ}
    (hc : (s.after handlers unmarshal earliest schedule n).conns[i]? = some c) :
    ∃ m c', (s.after handlers unmarshal earliest schedule m).conns[i]? = some c' ∧
      c'.stage.isClosed = true := by
  induction acc_next handlers unmarshal c generalizing n with
  | intro c _ ih =>
      cases hopen : c.stage.isClosed with
      | true => exact ⟨n, c, hc, hopen⟩
      | false =>
          obtain ⟨k, hadv⟩ := hfair n
          obtain ⟨m, c', hc', hnext⟩ := exists_next handlers unmarshal earliest hc hopen hadv
          exact ih c' hnext hc'

theorem closed_after {n m : ℕ} (hnm : n ≤ m)
    (hc : (s.after handlers unmarshal earliest schedule n).conns[i]? = some c)
    (hclosed : c.stage.isClosed = true) :
    (s.after handlers unmarshal earliest schedule m).conns[i]? = some c := by
  induction m, hnm using Nat.le_induction with
  | base => exact hc
  | succ m _ ih =>
      obtain ⟨c', hc', ⟨rfl, -⟩ | hnext⟩ := step_conn handlers unmarshal earliest ih (schedule m)
      · rw [Server.after_succ]
        exact hc'
      · rw [Conn.Next] at hnext
        cases hstage : c.stage <;> simp [hstage, Stage.isClosed] at hclosed hnext

/-- Threads that are not forgotten come to their ends, and then all permits are there again. -/
theorem permits_return (hs : s.count + s.live = maxConnections)
    (hnone : ∀ n, ¬ (schedule n).IsAccept)
    (hfair : ∀ i < s.conns.length, ∀ n, ∃ k, (schedule (n + k)).advances i = true) :
    ∃ n, ∀ m ≥ n, (s.after handlers unmarshal earliest schedule m).count = maxConnections := by
  have hlength : ∀ m, (s.after handlers unmarshal earliest schedule m).conns.length =
      s.conns.length := by
    intro m
    induction m with
    | zero => rfl
    | succ m ih => rw [Server.after_succ, step_length handlers unmarshal earliest (hnone m), ih]
  have hclosed : ∀ i < s.conns.length, ∀ᶠ m in Filter.atTop,
      ∃ c, (s.after handlers unmarshal earliest schedule m).conns[i]? = some c ∧
        c.stage.isClosed = true := by
    intro i hi
    have h0 : (s.after handlers unmarshal earliest schedule 0).conns[i]? = some s.conns[i] :=
      List.getElem?_eq_getElem hi
    obtain ⟨n, c, hc, hclosed⟩ := exists_closed handlers unmarshal earliest (hfair i hi) h0
    exact Filter.eventually_atTop.mpr ⟨n, fun m hm =>
      ⟨c, closed_after handlers unmarshal earliest hm hc hclosed, hclosed⟩⟩
  have hall := (Filter.eventually_all_finite (Set.finite_lt_nat s.conns.length)).mpr hclosed
  obtain ⟨n, hn⟩ := Filter.eventually_atTop.mp hall
  refine ⟨n, fun m hm => ?_⟩
  have hlive : (s.after handlers unmarshal earliest schedule m).live = 0 := by
    refine List.countP_eq_zero.mpr fun c hc => ?_
    obtain ⟨i, hi, rfl⟩ := List.getElem_of_mem hc
    obtain ⟨c, hc, hend⟩ := hn m hm i (by rw [← hlength m]; exact hi)
    obtain rfl := Option.some.inj ((List.getElem?_eq_getElem hi).symm.trans hc)
    simp [hend]
  have hrun := run_permits handlers unmarshal earliest s ((List.range m).map schedule)
  change (s.after handlers unmarshal earliest schedule m).count +
    (s.after handlers unmarshal earliest schedule m).live = s.count + s.live at hrun
  omega

theorem accept_refuses_iff (hs : s.count + s.live = maxConnections) (identity : Identity)
    (arrives : List Line) :
    (s.accept identity arrives).conns = s.conns ↔ s.live = maxConnections := by
  unfold Server.accept
  cases hcount : s.count with
  | zero => exact iff_of_true rfl (by omega)
  | succ count =>
      refine iff_of_false ?_ (by omega)
      simp

end Runs

/-- **The server.**  In every run from the start, in which connections come, threads take their
steps in any order and fail, and others change the state: every permit is free or held by one
connection, and a connection is refused exactly while all are held; the limiter is what its calls,
and the state what the sections one after the other have made of it; a connection whose thread does
not fail has written a part of its replies, and all of them when `handle_connection` has ended; and
when nobody connects any more and no thread is forgotten, all permits are free again some day. -/
theorem server_run {σ : Type} (handlers : SectionHandlers σ)
    (unmarshal : List UInt8 → Option UniversalRequest) (earliest : Option ℚ)
    (limiter : RateLimit.Inner) (d : σ) (acts : List (Server.Act σ)) :
    let s₀ : Server σ := { limiter := limiter, state := d }
    let s := final (Server.step handlers unmarshal earliest) s₀ acts
    let evs := s₀.trace handlers unmarshal earliest acts
    (s.count + s.live = maxConnections ∧ ∀ identity arrives,
      (s.accept identity arrives).conns = s.conns ↔ s.live = maxConnections) ∧
    (s.state = evs.foldl (fun d e => e.change d) d ∧
      s.limiter = final (RateLimit.call earliest) limiter (callsOf evs) ∧
      answersOf evs = outputs (RateLimit.call earliest) limiter (callsOf evs)) ∧
    (∀ i c, s.conns[i]? = some c → (∀ a ∈ acts, a.Smooth i) →
      c.output <+: repliesAlone handlers unmarshal c.identity (allowed i evs) (between i evs) 0
          c.arrives (0, d) ∧
        (c.stage.Ended → c.output = repliesAlone handlers unmarshal c.identity (allowed i evs)
          (between i evs) 0 c.arrives (0, d))) ∧
    ∀ schedule : ℕ → Server.Act σ, (∀ n, ¬ (schedule n).IsAccept) →
      (∀ i < s.conns.length, ∀ n, ∃ k, (schedule (n + k)).advances i = true) →
      ∃ n, ∀ m ≥ n, (s.after handlers unmarshal earliest schedule m).count = maxConnections := by
  intro s₀ s evs
  have hpermits : s.count + s.live = maxConnections :=
    run_permits handlers unmarshal earliest s₀ acts
  refine ⟨⟨hpermits, accept_refuses_iff hpermits⟩,
    run_shared handlers unmarshal earliest s₀ acts, fun i c hc hacts => ?_,
    fun schedule hnone hfair =>
      permits_return handlers unmarshal earliest hpermits hnone hfair⟩
  have howes := run_accepted handlers unmarshal earliest (Nat.zero_le i) hacts hc
  have hall : ({ identity := c.identity, arrives := c.arrives } : Conn σ).owes handlers unmarshal i
        d evs =
      repliesAlone handlers unmarshal c.identity (allowed i evs) (between i evs) 0 c.arrives
        (0, d) := rfl
  rw [show s₀.state = d from rfl, hall] at howes
  refine ⟨⟨_, howes⟩, fun hended => ?_⟩
  rw [← howes, Conn.owes, Conn.toCome_of_ended hended, List.append_nil]

/-! ### The handler of `stop` -/

/-- What `stop_handler` answers. -/
def stoppedJson (id : String) (was : Bool) : Json :=
  .obj [("id", .str id), ("status", .str "stopped"), ("was_running", .bool was)]

/-- `stop_handler`.  The second section is for the name and the namespace in the audit log. -/
def stopSections (h : Host) (errText : Serde.Error → String) (params : RawMessage) :
    Sections Daemon CallResult :=
  match params.unmarshal IdArgs.shape with
  | .error e => .done (.err ("ERR_BAD_REQUEST: " ++ errText e))
  | .ok args =>
      .lock id fun d =>
        match d.resolveId h args.id with
        | .error e => .done (.err e.toText)
        | .ok key =>
            .lock id fun _ => .lock id fun d =>
              let was := Stopping.active d key
              .lock (fun d => (d.stop h key).1) fun d =>
                match (d.stop h key).2 with
                | .error e => .done (.err e.toText)
                | .ok _ => .done (.ok (.json (stoppedJson key was)))

/-- The sections are those of the handler as the audit log has it. -/
theorem exec_stopSections (h : Host) (errText : Serde.Error → String)
    (others : ℕ → Daemon → Daemon) (disk : Disk) (d : Daemon) (identity : Identity)
    (params : RawMessage) :
    let r := Audit.stopHandler h errText others disk d identity params
    let t := (stopSections h errText params).exec others (0, d)
    t.1.2 = r.daemon ∧
      ((∃ e, r.result = .error e ∧ t.2 = .err e) ∨
        ∃ id was, r.result = .ok (.response (.stopped id was)) ∧
          t.2 = .ok (.json (stoppedJson id was))) := by
  intro r t
  cases hparams : params.unmarshal IdArgs.shape with
  | error e =>
      simp only [r, t, Audit.stopHandler, stopSections, hparams, Sections.exec]
      exact ⟨by trivial, .inl ⟨_, rfl, rfl⟩⟩
  | ok args =>
      cases hid : (others 0 d).resolveId h args.id with
      | error e =>
          simp only [r, t, Audit.stopHandler, stopSections, hparams, Sections.exec, hid]
          exact ⟨by trivial, .inl ⟨_, rfl, rfl⟩⟩
      | ok key =>
          simp only [r, t, Audit.stopHandler, stopSections, hparams, Sections.exec, hid, id_eq]
          rcases (others 3 (others 2 (others 1 (others 0 d)))).stop h key with ⟨d', e | _⟩
          · exact ⟨by trivial, .inl ⟨_, rfl, rfl⟩⟩
          · exact ⟨by trivial, .inr ⟨_, _, rfl, rfl⟩⟩

def stopHandlers : SectionHandlers Daemon := fun command =>
  if command = "stop" then some fun _ => stopSections userHost fun _ => "" else none

/-- A request to stop the process. -/
def stopEnvelope : UniversalRequest where
  version := 1
  id := "7"
  command := "stop"
  params := some (.json (.obj [("id", .str demoId)]))

/-- Two threads take the steps of such a request: both are at the stop when the first is let go
on. -/
def stopActs : List (Server.Act Daemon) :=
  let arrives : List Line := [.ok (some pingLine), .ok none]
  [.accept ⟨"1000"⟩ arrives, .accept ⟨"1001"⟩ arrives] ++
    ([0, 0, 0, 0, 0, 1, 1, 1, 1, 1, 0, 0, 0, 0, 1, 1, 1, 1].map fun i => .advance i 0 true)

/-- The reply says that the process was running. -/
def toldRunning (reply : Json) : Bool :=
  match (member "result" reply).bind (member "was_running") with
  | some (.bool was) => was
  | _ => false

/-- Both peers are told that they have stopped it. -/
theorem server_run_stops :
    let s₀ : Server Daemon :=
      { limiter := RateLimit.withCapacityAndRefill 200 100, state := Stopping.oneRunning }
    let s := final (Server.step stopHandlers (fun _ => some stopEnvelope) none) s₀ stopActs
    let evs := s₀.trace stopHandlers (fun _ => some stopEnvelope) none stopActs
    s.conns.length = 2 ∧ ∀ i c, s.conns[i]? = some c →
      (repliesAlone stopHandlers (fun _ => some stopEnvelope) c.identity (allowed i evs)
        (between i evs) 0 c.arrives (0, Stopping.oneRunning)).map toldRunning = [true] := by
  intro s₀ s evs
  have hlength : s.conns.length = 2 := by decide +kernel
  have hended : ∀ c ∈ s.conns, c.stage.Ended := by decide +kernel
  have houtput : ∀ c ∈ s.conns, c.output.map toldRunning = [true] := by decide +kernel
  refine ⟨hlength, fun i c hc => ?_⟩
  have hmem := List.mem_of_getElem? hc
  have hsmooth : ∀ a ∈ stopActs, a.Smooth i := by simp [stopActs, Server.Act.Smooth]
  obtain ⟨-, -, hconns, -⟩ := server_run stopHandlers (fun _ => some stopEnvelope) none
    (RateLimit.withCapacityAndRefill 200 100) Stopping.oneRunning stopActs
  rw [← (hconns i c hc hsmooth).2 (hended c hmem)]
  exact houtput c hmem

end Unitpm.Ipc
