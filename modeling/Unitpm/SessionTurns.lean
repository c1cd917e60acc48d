import Unitpm.ClientSession

/-! # A connection on which nothing fails

A client and `handle_connection` as in `ClientSession`, in the runs in which no read or write fails,
nobody leaves, and the server can read the requests.  Then the two take turns, and `Turn` says whose
turn it is.

`session_serves`: the calls return in their order, each with the reply to its own request; once the
server has ended the connection, every call finds it closed; and a round of the server and a `read`
that is long enough end the call that is waiting. -/

namespace Unitpm.Ipc

open Frames Run Torn

/-- How a call ends whose request was handled. -/
def Handled.result {σ : Type} (marshal : Json → List UInt8)
    (decode : List UInt8 → Except Serde.Error Response) (e : Handled σ) : String × Reply :=
  (e.request.id, match e.reply with
    | some reply => readReply decode (marshal reply ++ [newline])
    | none => .closed)

/-- The call that has not returned. -/
def ClientState.waiting : ClientState → List String
  | .reading id _ => [id]
  | _ => []

/-- The server can take the request: it fits, and is read as what it is. -/
structure Readable (unmarshal : List UInt8 → Option UniversalRequest) (text : Request → List UInt8)
    (r : Request) : Prop where
  fits : (text r).length ≤ maxMsgSize
  notMem : newline ∉ text r
  reads : unmarshal (text r ++ [newline]) = some r.universal

/-- Nothing fails, and the server can take what is sent. -/
def SessionEvent.Smooth {σ : Type} (unmarshal : List UInt8 → Option UniversalRequest)
    (text : Request → List UInt8) : SessionEvent σ → Prop
  | .call r => Readable unmarshal text r
  | .read _ | .change _ => True
  | .serve _ delivery => delivery = .whole
  | _ => False

/-- Whose turn it is, and how the call that is waiting will end where this is decided. -/
inductive Turn (unmarshal : List UInt8 → Option UniversalRequest) (marshal : Json → List UInt8)
    (text : Request → List UInt8) (decode : List UInt8 → Except Serde.Error Response)
    (client : ClientState) (isOpen : Bool) (up down : List UInt8) : List (String × Reply) → Prop
  | idle (hclient : client = .idle) (hup : isOpen = true → up = []) (hdown : down = []) :
      Turn unmarshal marshal text decode client isOpen up down []
  | asked (r : Request) (hclient : client = .reading r.id []) (hopen : isOpen = true)
      (hup : up = text r ++ [newline]) (hdown : down = []) (hr : Readable unmarshal text r) :
      Turn unmarshal marshal text decode client isOpen up down []
  | told (id : String) (buf : List UInt8) (reply : Json) (hclient : client = .reading id buf)
      (hup : isOpen = true → up = []) (hbuf : newline ∉ buf)
      (hline : buf ++ down = marshal reply ++ [newline]) :
      Turn unmarshal marshal text decode client isOpen up down
        [(id, readReply decode (marshal reply ++ [newline]))]
  | ended (id : String) (hclient : client = .reading id []) (hopen : isOpen = false)
      (hdown : down = []) :
      Turn unmarshal marshal text decode client isOpen up down [(id, .closed)]

section Turns

variable {σ : Type} {handlers : RawHandlers σ} {identity : Identity}
  {unmarshal : List UInt8 → Option UniversalRequest} {marshal : Json → List UInt8}
  {text : Request → List UInt8} {decode : List UInt8 → Except Serde.Error Response}
  {s : Session σ} {r : Request} {granted : Bool}

/-- The calls have ended as the handled requests say, up to the one that is waiting; behind them are
those that found the connection closed. -/
def Told (marshal : Json → List UInt8) (decode : List UInt8 → Except Serde.Error Response)
    (s : Session σ) (pending : List (String × Reply)) : Prop :=
  ∃ gone : List String, (s.isOpen = true → gone = []) ∧
    s.results ++ pending =
      s.handled.map (Handled.result marshal decode) ++ gone.map fun id => (id, Reply.closed)

/-- The invariant of these runs. -/
structure InTurn (unmarshal : List UInt8 → Option UniversalRequest) (marshal : Json → List UInt8)
    (text : Request → List UInt8) (decode : List UInt8 → Except Serde.Error Response)
    (s : Session σ) : Prop where
  calls : s.calls = s.results.map Prod.fst ++ s.client.waiting
  turn : ∃ pending, Turn unmarshal marshal text decode s.client s.isOpen s.up s.down pending ∧
    Told marshal decode s pending

/-! ### The server -/

theorem serve_of_closed {delivery : Delivery} (hopen : s.isOpen = false) :
    s.serve handlers identity unmarshal marshal granted delivery = s := by
  unfold Session.serve
  rw [if_pos (.inl hopen)]

theorem serve_of_waits {delivery : Delivery} (hwaits : s.Waits) :
    s.serve handlers identity unmarshal marshal granted delivery = s := by
  unfold Session.serve
  rw [if_pos (.inr hwaits)]

theorem serve_of_up_nil {delivery : Delivery} (hup : s.isOpen = true → s.up = [])
    (hclient : s.client ≠ .gone) :
    s.serve handlers identity unmarshal marshal granted delivery = s := by
  cases hopen : s.isOpen with
  | false => exact serve_of_closed hopen
  | true =>
      apply serve_of_waits
      unfold Session.Waits
      rw [hup hopen]
      refine ⟨List.not_mem_nil, Nat.zero_le _, ?_⟩
      cases hstate : s.client with
      | gone => exact hclient hstate
      | idle => trivial
      | reading id buf => trivial

/-- A request that the server can take is handled. -/
theorem serve_request {delivery : Delivery} (hopen : s.isOpen = true)
    (hup : s.up = text r ++ [newline]) (hr : Readable unmarshal text r) :
    s.serve handlers identity unmarshal marshal granted delivery =
      Session.handle handlers identity marshal granted delivery r.universal
        { s with up := [] } := by
  have hcut : cut newline s.up = (text r ++ [newline], []) := by
    rw [hup]
    exact cut_append_sep hr.notMem []
  have hframe : frameResult (text r ++ [newline]) = .ok (some (text r ++ [newline])) := by
    have hfits := hr.fits
    unfold frameResult
    rw [if_neg, if_neg (by simp)]
    rw [List.length_append, List.length_singleton]
    omega
  have hbusy : ¬ (s.isOpen = false ∨ s.Waits) := by
    rintro (hclosed | hwaits)
    · rw [hopen] at hclosed
      cases hclosed
    · exact hwaits.1 (by rw [hup]; simp)
  unfold Session.serve
  rw [if_neg hbusy, hcut, hframe]
  simp only
  rw [hr.reads]

theorem handle_none {univ : UniversalRequest}
    (hreply : (answer handlers identity granted s.state univ).2 = none) :
    Session.handle handlers identity marshal granted .whole univ s =
      { s with
        state := (answer handlers identity granted s.state univ).1
        handled := s.handled ++ [Handled.mk univ s.state granted none]
        isOpen := false } := by
  unfold Session.handle
  simp only [hreply]

theorem handle_some {univ : UniversalRequest} {reply : Json}
    (hreply : (answer handlers identity granted s.state univ).2 = some reply) :
    Session.handle handlers identity marshal granted .whole univ s =
      Session.put reply (marshal reply ++ [newline])
        { s with
          state := (answer handlers identity granted s.state univ).1
          handled := s.handled ++ [Handled.mk univ s.state granted (some reply)] } := by
  unfold Session.handle
  simp only [hreply, Delivery.bytes, ite_self]

/-- After a round of the server it is decided how the call that is waiting ends. -/
theorem InTurn.serve (h : InTurn unmarshal marshal text decode s) {s' : Session σ}
    (hs : s.serve handlers identity unmarshal marshal granted .whole = s') :
    InTurn unmarshal marshal text decode s' ∧ ∃ pending,
      Turn unmarshal marshal text decode s'.client s'.isOpen s'.up s'.down pending ∧
        (pending = [] → s'.client = .idle) := by
  have ⟨hcalls, pending, hturn, htold⟩ := h
  have ⟨gone, hgone, hresults⟩ := htold
  cases hturn with
  | idle hclient hup hdown =>
      rw [serve_of_up_nil hup (by rw [hclient]; exact ClientState.noConfusion)] at hs
      subst hs
      exact ⟨h, [], .idle hclient hup hdown, fun _ => hclient⟩
  | told id buf reply hclient hup hbuf hline =>
      rw [serve_of_up_nil hup (by rw [hclient]; exact ClientState.noConfusion)] at hs
      subst hs
      exact ⟨h, _, .told id buf reply hclient hup hbuf hline, fun hnil => by cases hnil⟩
  | ended id hclient hopen hdown =>
      rw [serve_of_closed hopen] at hs
      subst hs
      exact ⟨h, _, .ended id hclient hopen hdown, fun hnil => by cases hnil⟩
  | asked r hclient hopen hup hdown hr =>
      obtain rfl := hgone hopen
      rw [List.append_nil, List.map_nil, List.append_nil] at hresults
      rw [serve_request hopen hup hr] at hs
      cases hreply : (answer handlers identity granted s.state r.universal).2 with
      | none =>
          rw [handle_none (s := { s with up := [] }) hreply] at hs
          subst hs
          have hturn : Turn unmarshal marshal text decode s.client false [] s.down
              [(r.id, .closed)] := .ended r.id hclient rfl hdown
          refine ⟨⟨hcalls, _, hturn, [], fun _ => rfl, ?_⟩, _, hturn, fun hnil => by cases hnil⟩
          simp only [List.map_append, hresults, List.map_nil, List.append_nil]
          rfl
      | some reply =>
          rw [handle_some (s := { s with up := [] }) hreply] at hs
          subst hs
          have hturn : Turn unmarshal marshal text decode s.client s.isOpen []
              (s.down ++ (marshal reply ++ [newline]))
              [(r.id, readReply decode (marshal reply ++ [newline]))] :=
            .told r.id [] reply hclient (fun _ => rfl) List.not_mem_nil (by rw [hdown]; rfl)
          refine ⟨⟨hcalls, _, hturn, [], fun _ => rfl, ?_⟩, _, hturn, fun hnil => by cases hnil⟩
          change s.results ++ _ = (s.handled ++ _).map _ ++ _
          simp only [List.map_append, hresults, List.map_nil, List.append_nil]
          rfl

/-! ### The client -/

theorem eq_nil_of_line {p q m : List UInt8} (hm : newline ∉ m) (hp : newline ∈ p)
    (h : p ++ q = m ++ [newline]) : q = [] := by
  rcases List.eq_nil_or_concat q with hq | ⟨q', b, rfl⟩
  · exact hq
  · exfalso
    rw [List.concat_eq_append, ← List.append_assoc] at h
    obtain ⟨hmq, -⟩ := List.append_inj' h rfl
    exact hm (hmq ▸ List.mem_append_left q' hp)

theorem told_finish {id : String} {reply : Reply} {d : List UInt8}
    (htold : Told marshal decode s [(id, reply)]) :
    Told marshal decode (({ s with down := d }).finish id reply) [] := by
  obtain ⟨gone, hgone, hresults⟩ := htold
  refine ⟨gone, hgone, ?_⟩
  rw [List.append_nil]
  exact hresults

theorem calls_finish {id : String} {buf d : List UInt8} {reply : Reply}
    (hclient : s.client = .reading id buf)
    (hcalls : s.calls = s.results.map Prod.fst ++ s.client.waiting) :
    (({ s with down := d }).finish id reply).calls =
      (({ s with down := d }).finish id reply).results.map Prod.fst ++ [] := by
  rw [hclient] at hcalls
  change s.calls = (s.results ++ [(id, reply)]).map Prod.fst ++ []
  rw [hcalls, List.map_append, List.append_nil]
  rfl

/-- A `read` while a reply is coming. -/
theorem read_reply (decode : List UInt8 → Except Serde.Error Response) {id : String}
    {buf : List UInt8} {reply : Json} (n : ℕ) (hmarshal : ∀ j, newline ∉ marshal j)
    (hclient : s.client = .reading id buf) (hbuf : newline ∉ buf)
    (hline : buf ++ s.down = marshal reply ++ [newline]) :
    (newline ∈ buf ++ s.down.take (n + 1) ∧ s.read decode n =
        ({ s with down := [] }).finish id (readReply decode (marshal reply ++ [newline]))) ∨
      newline ∉ buf ++ s.down.take (n + 1) ∧ s.read decode n =
        { s with
          down := s.down.drop (n + 1)
          client := .reading id (buf ++ s.down.take (n + 1)) } := by
  have hdown : s.down ≠ [] := by
    intro hnil
    rw [hnil, List.append_nil] at hline
    exact hbuf (by rw [hline]; simp)
  have hsplit : (buf ++ s.down.take (n + 1)) ++ s.down.drop (n + 1) =
      marshal reply ++ [newline] := by
    rw [List.append_assoc, List.take_append_drop, hline]
  unfold Session.read
  rw [hclient]
  simp only [if_neg hdown]
  by_cases hmem : newline ∈ buf ++ s.down.take (n + 1)
  · left
    have hcut : (cut newline (buf ++ s.down.take (n + 1))).1 = marshal reply ++ [newline] := by
      rw [← cut_append_of_mem hmem (s.down.drop (n + 1)), hsplit, cut_append_sep (hmarshal reply)]
    rw [if_pos hmem, hcut, eq_nil_of_line (hmarshal reply) hmem hsplit]
    exact ⟨hmem, rfl⟩
  · right
    rw [if_neg hmem]
    exact ⟨hmem, rfl⟩

theorem read_ended {id : String} (n : ℕ) (hclient : s.client = .reading id [])
    (hopen : s.isOpen = false) (hdown : s.down = []) :
    s.read decode n = ({ s with down := s.down }).finish id .closed := by
  unfold Session.read
  rw [hclient]
  simp only [if_pos hdown, hopen, Bool.false_eq_true, if_false]
  rfl

theorem InTurn.read (hmarshal : ∀ j, newline ∉ marshal j)
    (h : InTurn unmarshal marshal text decode s) (n : ℕ) :
    InTurn unmarshal marshal text decode (s.read decode n) := by
  have ⟨hcalls, pending, hturn, htold⟩ := h
  cases hturn with
  | idle hclient hup hdown =>
      unfold Session.read
      rw [hclient]
      exact h
  | asked r hclient hopen hup hdown hr =>
      unfold Session.read
      rw [hclient]
      simp only [if_pos hdown, hopen, if_true]
      exact h
  | told id buf reply hclient hup hbuf hline =>
      rcases read_reply decode n hmarshal hclient hbuf hline with
        ⟨-, hread⟩ | ⟨hmem, hread⟩
      · rw [hread]
        exact ⟨calls_finish hclient hcalls, [], .idle rfl hup rfl, told_finish htold⟩
      · rw [hread]
        refine ⟨?_, _, .told id _ reply rfl hup hmem ?_, htold⟩
        · rw [hclient] at hcalls
          exact hcalls
        · rw [List.append_assoc, List.take_append_drop, hline]
  | ended id hclient hopen hdown =>
      rw [read_ended n hclient hopen hdown]
      refine ⟨calls_finish hclient hcalls, [], .idle rfl (fun h => ?_) hdown, told_finish htold⟩
      rw [show s.isOpen = true from h] at hopen
      cases hopen

/-- The call that is waiting comes to its end. -/
theorem InTurn.read_idle (hmarshal : ∀ j, newline ∉ marshal j) {pending : List (String × Reply)}
    (hturn : Turn unmarshal marshal text decode s.client s.isOpen s.up s.down pending)
    (hpending : pending = [] → s.client = .idle) :
    (s.read decode s.down.length).client = .idle := by
  cases hturn with
  | idle hclient hup hdown =>
      unfold Session.read
      rw [hclient]
      exact hclient
  | asked r hclient hopen hup hdown hr =>
      rw [hpending rfl] at hclient
      cases hclient
  | told id buf reply hclient hup hbuf hline =>
      rcases read_reply decode s.down.length hmarshal hclient hbuf hline with
        ⟨-, hread⟩ | ⟨hmem, -⟩
      · rw [hread]
        rfl
      · rw [List.take_of_length_le (Nat.le_succ _), hline] at hmem
        exact absurd (by simp) hmem
  | ended id hclient hopen hdown =>
      rw [read_ended _ hclient hopen hdown]
      rfl

/-! ### Runs -/

/-- A call. -/
theorem InTurn.call (h : InTurn unmarshal marshal text decode s)
    (hr : Readable unmarshal text r) :
    InTurn unmarshal marshal text decode
      (s.step handlers identity unmarshal marshal text decode (.call r)) := by
  have ⟨hcalls, pending, hturn, gone, hgone, hresults⟩ := h
  cases hturn with
  | idle hclient hup hdown =>
      have hstep : s.step handlers identity unmarshal marshal text decode (.call r) =
          { s.send r (text r ++ [newline]) with client := .reading r.id [] } := by
        simp only [Session.step, hclient]
      have hnext : s.calls ++ [r.id] = s.results.map Prod.fst ++ [r.id] := by
        rw [hcalls, hclient]
        exact congrArg (· ++ [r.id]) (List.append_nil _)
      rw [hstep]
      cases hopen : s.isOpen with
      | true =>
          have hbytes : s.up ++ (text r ++ [newline]) = text r ++ [newline] := by
            rw [hup hopen, List.nil_append]
          exact ⟨hnext, [], .asked r rfl hopen hbytes hdown hr, gone, hgone, hresults⟩
      | false =>
          refine ⟨hnext, _, .ended r.id rfl hopen hdown, gone ++ [r.id], fun h => ?_, ?_⟩
          · rw [show s.isOpen = true from h] at hopen
            cases hopen
          · rw [List.append_nil] at hresults
            change s.results ++ _ = s.handled.map _ ++ _
            rw [List.map_append, ← List.append_assoc, ← hresults]
            rfl
  | asked r' hclient hopen hup hdown hr' =>
      simp only [Session.step, hclient]
      exact h
  | told id buf reply hclient hup hbuf hline =>
      simp only [Session.step, hclient]
      exact h
  | ended id hclient hopen hdown =>
      simp only [Session.step, hclient]
      exact h

theorem InTurn.step (hmarshal : ∀ j, newline ∉ marshal j) (s : Session σ) (ev : SessionEvent σ)
    (h : InTurn unmarshal marshal text decode s) (hev : ev.Smooth unmarshal text) :
    InTurn unmarshal marshal text decode
      (s.step handlers identity unmarshal marshal text decode ev) := by
  cases ev with
  | call r => exact h.call hev
  | read n => exact h.read hmarshal n
  | serve granted delivery =>
      obtain rfl : delivery = .whole := hev
      exact (h.serve rfl).1
  | change f => exact ⟨h.calls, h.turn⟩
  | callFailed r n e => exact hev.elim
  | readFailed e => exact hev.elim
  | leave => exact hev.elim
  | hangUp => exact hev.elim

end Turns

/-- A request that was handled without a reply has ended the connection. -/
def Session.EndsUnanswered {σ : Type} (s : Session σ) : Prop :=
  ∀ e ∈ s.handled, e.reply = none → s.isOpen = false

section Unanswered

variable {σ : Type} {handlers : RawHandlers σ} {identity : Identity}
  {unmarshal : List UInt8 → Option UniversalRequest} {marshal : Json → List UInt8}
  {text : Request → List UInt8} {decode : List UInt8 → Except Serde.Error Response}
  {s : Session σ}

theorem Session.EndsUnanswered.serve (h : s.EndsUnanswered) (granted : Bool)
    (delivery : Delivery) :
    (s.serve handlers identity unmarshal marshal granted delivery).EndsUnanswered := by
  unfold Session.serve
  split_ifs with hidle
  · exact h
  · have hopen : s.isOpen = true := Bool.eq_true_of_not_eq_false fun hclosed => hidle (.inl hclosed)
    have hold : ∀ e ∈ s.handled, e.reply ≠ none := by
      intro e he hnone
      rw [h e he hnone] at hopen
      cases hopen
    rcases frameResult (cut newline s.up).1 with ⟨⟩ | _ | line
    · exact fun _ _ _ => rfl
    · exact fun _ _ _ => rfl
    · simp only
      cases unmarshal line with
      | none => exact fun _ _ _ => rfl
      | some univ =>
          simp only [Session.handle]
          rcases answer handlers identity granted s.state univ with ⟨d, _ | reply⟩
          · exact fun _ _ _ => rfl
          · have hnew : ∀ e ∈ s.handled ++ [Handled.mk univ s.state granted (some reply)],
                e.reply ≠ none := by
              intro e he
              rcases List.mem_append.mp he with he | he
              · exact hold e he
              · rw [List.mem_singleton.mp he]
                exact Option.some_ne_none reply
            simp only
            split_ifs
            · exact fun e he hnone => absurd hnone (hnew e he)
            · cases delivery with
              | whole => exact fun e he hnone => absurd hnone (hnew e he)
              | torn n newlineToo => exact fun _ _ _ => rfl

theorem Session.EndsUnanswered.step (s : Session σ) (ev : SessionEvent σ)
    (h : s.EndsUnanswered) :
    (s.step handlers identity unmarshal marshal text decode ev).EndsUnanswered := by
  cases ev with
  | serve granted delivery => exact h.serve granted delivery
  | hangUp => exact fun _ _ _ => rfl
  | leave => exact h
  | change f => exact h
  | call r =>
      unfold Session.step
      cases s.client <;> exact h
  | callFailed r n e =>
      unfold Session.step
      cases s.client <;> exact h
  | readFailed e =>
      unfold Session.step
      cases s.client <;> exact h
  | read n =>
      simp only [Session.step, Session.read]
      cases s.client with
      | idle => exact h
      | gone => exact h
      | reading id buf =>
          simp only
          split_ifs <;> exact h

end Unanswered

/-- **In turn.**  After any run of a client and its connection in which nothing fails and the server
can read the requests: the calls return in their order; the first of them each return the reply to
the request of its own that was handled, or find the connection closed where it has none; the others
find it closed, and there are none while it is open.  A request that has no reply has ended the
connection.  And no call waits for ever: a round of the server and a `read` of what there is then
end it. -/
theorem session_serves {σ : Type} (handlers : RawHandlers σ) (identity : Identity)
    (unmarshal : List UInt8 → Option UniversalRequest) (marshal : Json → List UInt8)
    (text : Request → List UInt8) (decode : List UInt8 → Except Serde.Error Response)
    (hmarshal : ∀ j, newline ∉ marshal j) (d : σ) (evs : List (SessionEvent σ))
    (hevs : ∀ ev ∈ evs, ev.Smooth unmarshal text) (s : Session σ)
    (hs : evs.foldl (Session.step handlers identity unmarshal marshal text decode)
      { state := d } = s) :
    s.calls = s.results.map Prod.fst ++ s.client.waiting ∧
      (∃ gone : List String, (s.isOpen = true → gone = []) ∧
        s.results <+:
          s.handled.map (Handled.result marshal decode) ++ gone.map fun id => (id, Reply.closed)) ∧
      s.EndsUnanswered ∧
      ∀ granted, ∃ n,
        ((s.serve handlers identity unmarshal marshal granted .whole).read decode n).client =
          .idle := by
  have hinit : InTurn unmarshal marshal text decode ({ state := d } : Session σ) :=
    ⟨rfl, [], .idle rfl (fun _ => rfl) rfl, [], fun _ => rfl, rfl⟩
  have hsmooth : Along (Session.step handlers identity unmarshal marshal text decode)
      (fun _ ev => ev.Smooth unmarshal text) { state := d } evs :=
    along_of_forall _ fun ev hev _ => hevs ev hev
  have h : InTurn unmarshal marshal text decode s := by
    rw [← hs]
    exact hsmooth.invariant _ (InTurn.step hmarshal) hinit
  refine ⟨h.calls, ?_, ?_, fun granted => ?_⟩
  · obtain ⟨pending, -, gone, hgone, hresults⟩ := h.turn
    exact ⟨gone, hgone, pending, hresults⟩
  · rw [← hs]
    exact Run.invariant Session.EndsUnanswered Session.EndsUnanswered.step evs
      (List.forall_mem_nil _)
  · obtain ⟨-, pending, hturn, hpending⟩ := h.serve rfl
    exact ⟨_, InTurn.read_idle hmarshal hturn hpending⟩

theorem session_serves_ping :
    ∃ gone : List String, (pingSession.isOpen = true → gone = []) ∧
      pingSession.results <+: pingSession.handled.map (Handled.result replyText readResponse) ++
        gone.map fun id => (id, Reply.closed) := by
  have hmarshal : ∀ j, newline ∉ replyText j := by
    intro j
    unfold replyText
    split
    · split_ifs with hid
      · exact (show ∀ id ∈ pingIds, newline ∉ pongText id by decide +kernel) _ hid
      · decide
    · decide
  have hping : Readable readRequest requestText (pingOf "7") :=
    ⟨by decide +kernel, by decide +kernel, rfl⟩
  refine (session_serves pingHandlers ⟨"1000"⟩ readRequest replyText requestText readResponse
    hmarshal () pingEvents ?_ pingSession rfl).2.1
  intro ev hev
  simp only [pingEvents, List.mem_cons, List.not_mem_nil, or_false] at hev
  rcases hev with rfl | rfl | rfl | rfl
  · exact hping
  · rfl
  · trivial
  · trivial

end Unitpm.Ipc
