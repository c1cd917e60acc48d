import Unitpm.Files
import Unitpm.Wire

/-! # The protocol of `unitpm start`

`cli/commands/start`: for each instance the client saves the spec, sends the request and waits for
the reply; on any error of the call it removes the file again.  Client and daemon share the spec
directory and are otherwise joined by one request and one reply that may be lost, and either may
take its step at any time: a request can be handled after the client has given up on it.

`startProtocol_files`: in every run in which the client does not give up on a request that the
daemon has accepted, and the daemon accepts none that the client has given up on, every instance
that is registered has its file.  A lost reply is enough for one that does not
(`lostReply_removes_file`). -/

namespace Unitpm

open Run

/-! ### Instances -/

/-- The spec of one instance, as the loop of `run` makes it from the spec of the command line. -/
def instanceSpec (appSpec : AppSpec) (scale : ℕ) (id now : String) (i : ℕ) : AppSpec :=
  let baseName := displayName appSpec
  let shortId := String.ofList (id.toList.take 8)
  { appSpec with
    id := id
    createdAt := some now
    ns := some (appSpec.ns.getD defaultNamespace)
    name :=
      if appSpec.name = "" then
        if scale > 1 then baseName ++ "-" ++ toString (i + 1) ++ "-" ++ shortId
        else baseName ++ "-" ++ shortId
      else if scale > 1 then baseName ++ "-" ++ toString (i + 1)
      else baseName
    env := some ((appSpec.env.getD .empty).insert "UNITPM_INSTANCE" (toString i)) }

/-- The instances of a command line; `ids` are what `generate_id` returns. -/
def instances (appSpec : AppSpec) (scale : ℤ) (ids now : ℕ → String) : List AppSpec :=
  let scale := (max scale 1).toNat
  (List.range scale).map fun i => instanceSpec appSpec scale (ids i) (now i) i

/-! ### Client, daemon and messages -/

/-- Where the client is in the loop body. -/
inductive Phase where
  | idle
  | saved
  | waiting
  | returned (ok : Bool)
deriving DecidableEq

structure Exchange where
  daemon : Daemon
  /-- The instances to come, that of the current loop body first. -/
  todo : List AppSpec
  phase : Phase := .idle
  request : Option AppSpec := none
  reply : Option (Except String Response) := none

/-- The steps of client, daemon and network.  Each that touches files or processes comes with the
answers of the operating system. -/
inductive StartEvent where
  /-- The loop body up to the save, or the end of the loop. -/
  | turn (h : Host)
  /-- The request is written. -/
  | send
  /-- The call fails while it is written; it may have got out all the same. -/
  | sendFailed (h : Host) (delivered : Bool)
  | loseRequest
  /-- The daemon runs the handler on the request. -/
  | handle (h : Host)
  /-- The server answers with an error of its own: a limit, a rate. -/
  | refuse (e : String)
  | loseReply
  /-- The client reads the reply. -/
  | receive (h : Host)
  /-- The client times out, or its connection is closed. -/
  | giveUp (h : Host)

namespace Exchange

/-- The error path of the loop body: the file is removed and the command returns. -/
def rollBack (h : Host) (x : Exchange) : Exchange :=
  { x with
    daemon := match x.todo with
      | [] => x.daemon
      | s :: _ => x.daemon.deleteSpec h s.id
    phase := .returned false }

/-- The start of the loop body. -/
def turn (h : Host) (x : Exchange) : Exchange :=
  match x.todo with
  | [] => { x with phase := .returned true }
  | s :: _ =>
      match x.daemon.specDir.saveSpec h s.id s with
      | (dir, .error _) =>
          { x with daemon := { x.daemon with specDir := dir }, phase := .returned false }
      | (dir, .ok _) => { x with daemon := { x.daemon with specDir := dir }, phase := .saved }

/-- A step that is not enabled does nothing. -/
def step (privileged : Bool) (identity : Identity) (x : Exchange) : StartEvent → Exchange
  | .turn h => if x.phase = .idle then x.turn h else x
  | .send => if x.phase = .saved then { x with phase := .waiting, request := x.todo.head? }
      else x
  | .sendFailed h delivered =>
      if x.phase = .saved then
        { x.rollBack h with request := if delivered then x.todo.head? else none }
      else x
  | .loseRequest => { x with request := none }
  | .handle h =>
      match x.request with
      | none => x
      | some s =>
          match x.daemon.startHandler h privileged identity s with
          | (d, r) => { x with daemon := d, request := none, reply := some r }
  | .refuse e =>
      match x.request with
      | none => x
      | some _ => { x with request := none, reply := some (.error e) }
  | .loseReply => { x with reply := none }
  | .receive h =>
      if x.phase = .waiting then
        match x.reply with
        | none => x
        | some (.ok _) => { x with phase := .idle, todo := x.todo.tail, reply := none }
        | some (.error _) => { x.rollBack h with reply := none }
      else x
  | .giveUp h => if x.phase = .waiting then x.rollBack h else x

end Exchange

/-! ### What the steps do to files and registry -/

section Effects

variable {h : Host} {privileged : Bool} {identity : Identity} {d : Daemon} {s : AppSpec}
  {dir : SpecDir} {id k : String}

theorem SpecDir.isSome_saveSpec (hk : (dir.lookup k).isSome = true) :
    ((dir.saveSpec h id s).1.lookup k).isSome = true := by
  have hinsert : ∀ f, ((dir.insert id f).lookup k).isSome = true := by
    intro f
    rw [AList.lookup_isSome] at hk ⊢
    exact (AList.mem_insert dir).mpr (.inr hk)
  unfold SpecDir.saveSpec
  split
  case h_1 => exact hinsert _
  case h_2 => exact hk
  case h_3 => exact hinsert _

theorem SpecDir.isSome_of_saved {dir' : SpecDir} {u : Unit}
    (hs : dir.saveSpec h id s = (dir', .ok u)) : (dir'.lookup id).isSome = true := by
  unfold SpecDir.saveSpec at hs
  split at hs
  case h_1 =>
      obtain ⟨rfl, -⟩ := Prod.mk.inj hs
      rw [AList.lookup_insert]
      rfl
  case h_2 => cases (Prod.mk.inj hs).2
  case h_3 => cases (Prod.mk.inj hs).2

theorem SpecDir.lookup_deleteSpec (hk : k = id → h.specRemoveErr id ≠ none) :
    (dir.deleteSpec h id).1.lookup k = dir.lookup k := by
  unfold SpecDir.deleteSpec
  split
  case h_1 => rfl
  case h_2 hnone =>
      apply AList.lookup_erase_ne
      intro he
      exact hk he hnone

namespace Daemon

/-- What the handler of `start` does to the registry and the files: nothing, or the id is new in
the registry and no file goes. -/
theorem startHandler_effect (h : Host) (privileged : Bool) (d : Daemon) (identity : Identity)
    (s : AppSpec) :
    (∃ e, d.startHandler h privileged identity s = (d, .error e)) ∨
      d.CanHandle h privileged identity s ∧ ∃ d' r,
        d.startHandler h privileged identity s = (d', .ok r) ∧
        d'.registered = insert s.id d.registered ∧ d.specFiles ⊆ d'.specFiles := by
  by_cases hc : d.CanHandle h privileged identity s
  · refine .inr ⟨hc, ?_⟩
    obtain ⟨hid, t, ht, hstart⟩ := hc
    obtain ⟨r, hr⟩ := startHandler_of_canHandle hid ht hstart
    obtain ⟨p, hp, he⟩ := hstart
    obtain ⟨-, f, c, rfl⟩ := admitRequest_ok ht
    refine ⟨_, r, hr, ?_, ?_⟩
    · have hpid : p.info.id = s.id := by
        rw [p.id_eq, (Process.new_ok (admission_ok hp).2).1]
      rw [startWithSpec_of_canStart hp he]
      ext k
      simp only [registered, Set.mem_ofPred_eq, put_lookup, Set.mem_insert_iff, Process.started_id,
        hpid]
      by_cases hk : k = s.id
      · simp [hk]
      · simp [hk]
    · rw [startWithSpec_of_canStart hp he]
      intro k hk
      change ((d.dirAfterStart h _).lookup k).isSome = true
      unfold dirAfterStart
      split
      · exact SpecDir.isSome_saveSpec hk
      · exact hk
  · exact .inl (startHandler_of_not_canHandle hc)

end Daemon

end Effects

/-! ### The invariant -/

/-- Registered instances have their files, and what that rests on: which file is there, which
request is under way, and which ids are not registered yet. -/
structure Covered (new : List AppSpec) (x : Exchange) : Prop where
  files : ∀ t ∈ new, t.id ∈ x.daemon.registered → t.id ∈ x.daemon.specFiles
  suffix : x.todo <:+ new
  saved : x.phase = .saved ∨ x.phase = .waiting →
    ∃ s rest, x.todo = s :: rest ∧ s.id ∈ x.daemon.specFiles
  request : ∀ s, x.request = some s → s ∈ new ∧
    ((∃ ok, x.phase = .returned ok) ∨
      x.phase = .waiting ∧ x.reply = none ∧ x.todo.head? = some s)
  quiet : x.phase = .idle ∨ x.phase = .saved → x.reply = none
  unregistered : (∃ ok, x.phase = .returned ok) ∨ (∀ t ∈ x.todo, t.id ∉ x.daemon.registered) ∨
    x.phase = .waiting ∧ x.request = none ∧ (∀ e, x.reply ≠ some (.error e)) ∧
      ∀ t ∈ x.todo.tail, t.id ∉ x.daemon.registered

variable {privileged : Bool} {identity : Identity} {new : List AppSpec} {x : Exchange} {h : Host}

namespace Covered

theorem init {d : Daemon} (hnew : ∀ s ∈ new, s.id ∉ d.registered) :
    Covered new { daemon := d, todo := new } where
  files t ht hr := absurd hr (hnew t ht)
  suffix := List.suffix_refl new
  saved hp := by rcases hp with hp | hp <;> cases hp
  request _ hs := by cases hs
  quiet _ := rfl
  unregistered := .inr (.inl hnew)

theorem of_returned {ok : Bool} (hp : x.phase = .returned ok)
    (hfiles : ∀ t ∈ new, t.id ∈ x.daemon.registered → t.id ∈ x.daemon.specFiles)
    (hsuffix : x.todo <:+ new) (hreq : ∀ s, x.request = some s → s ∈ new) : Covered new x where
  files := hfiles
  suffix := hsuffix
  saved hp' := by rcases hp' with hp' | hp' <;> rw [hp] at hp' <;> cases hp'
  request s hs := ⟨hreq s hs, .inl ⟨ok, hp⟩⟩
  quiet hp' := by rcases hp' with hp' | hp' <;> rw [hp] at hp' <;> cases hp'
  unregistered := .inl ⟨ok, hp⟩

theorem not_registered (hx : Covered new x) (hp : x.phase = .idle ∨ x.phase = .saved) :
    ∀ t ∈ x.todo, t.id ∉ x.daemon.registered := by
  obtain ⟨ok, hp'⟩ | hun | ⟨hp', -⟩ := hx.unregistered
  · rcases hp with hp | hp <;> rw [hp] at hp' <;> cases hp'
  · exact hun
  · rcases hp with hp | hp <;> rw [hp] at hp' <;> cases hp'

theorem mem_of_head (hx : Covered new x) {s : AppSpec} (hs : x.todo.head? = some s) : s ∈ new :=
  hx.suffix.subset (List.mem_of_mem_head? hs)

/-- A roll-back takes the file of the current instance; that must not be registered. -/
theorem rollBack (hx : Covered new x)
    (hcur : ∀ s, x.todo.head? = some s → s.id ∈ x.daemon.registered →
      h.specRemoveErr s.id ≠ none)
    (request : Option AppSpec) (reply : Option (Except String Response))
    (hreq : ∀ s, request = some s → s ∈ new) :
    Covered new { x.rollBack h with request := request, reply := reply } := by
  refine of_returned rfl ?_ hx.suffix hreq
  intro t ht hr
  unfold Exchange.rollBack at hr ⊢
  cases htodo : x.todo with
  | nil =>
      rw [htodo] at hr
      exact hx.files t ht hr
  | cons s rest =>
      rw [htodo] at hr
      have hlookup : (x.daemon.specDir.deleteSpec h s.id).1.lookup t.id =
          x.daemon.specDir.lookup t.id := by
        apply SpecDir.lookup_deleteSpec
        intro he
        exact hcur s (by rw [htodo]; rfl) (he ▸ hr)
      change ((x.daemon.specDir.deleteSpec h s.id).1.lookup t.id).isSome = true
      rw [hlookup]
      exact hx.files t ht hr

theorem turn (hx : Covered new x) (hp : x.phase = .idle) : Covered new (x.turn h) := by
  have hreq : ∀ s, x.request = some s → s ∈ new := fun s hs => (hx.request s hs).1
  have hsuffix := hx.suffix
  unfold Exchange.turn
  cases htodo : x.todo with
  | nil =>
      rw [htodo] at hsuffix
      exact of_returned rfl hx.files hsuffix hreq
  | cons s rest =>
      rw [htodo] at hsuffix
      dsimp only
      have hfiles : ∀ t ∈ new, t.id ∈ x.daemon.registered →
          ((x.daemon.specDir.saveSpec h s.id s).1.lookup t.id).isSome = true :=
        fun t ht hr => SpecDir.isSome_saveSpec (hx.files t ht hr)
      cases hsave : x.daemon.specDir.saveSpec h s.id s with
      | mk dir r =>
          rw [hsave] at hfiles
          cases r with
          | error e => exact of_returned rfl hfiles hsuffix hreq
          | ok u =>
              refine ⟨hfiles, hsuffix, fun _ => ⟨s, rest, rfl, SpecDir.isSome_of_saved hsave⟩,
                fun t ht => ?_, fun _ => hx.quiet (.inl hp), ?_⟩
              · obtain ⟨-, ⟨ok, hp'⟩ | ⟨hp', -⟩⟩ := hx.request t ht <;> rw [hp] at hp' <;> cases hp'
              · have hun := hx.not_registered (.inl hp)
                rw [htodo] at hun
                exact .inr (.inl hun)

/-- While a request is under way, either the command has returned or no instance to come is
registered. -/
theorem of_request (hx : Covered new x) {s : AppSpec} (hs : x.request = some s) :
    (∃ ok, x.phase = .returned ok) ∨
      x.phase = .waiting ∧ (∃ rest, x.todo = s :: rest) ∧
        ∀ t ∈ x.todo, t.id ∉ x.daemon.registered := by
  obtain ⟨-, hret | ⟨hp, -, hhead⟩⟩ := hx.request s hs
  · exact .inl hret
  · obtain hret | hun | ⟨-, hnone, -⟩ := hx.unregistered
    · exact .inl hret
    · exact .inr ⟨hp, ⟨_, List.eq_cons_of_mem_head? hhead⟩, hun⟩
    · rw [hs] at hnone
      cases hnone

theorem send (hx : Covered new x) (hp : x.phase = .saved) :
    Covered new { x with phase := .waiting, request := x.todo.head? } where
  files := hx.files
  suffix := hx.suffix
  saved _ := hx.saved (.inl hp)
  request s hs := ⟨hx.mem_of_head hs, .inr ⟨rfl, hx.quiet (.inr hp), hs⟩⟩
  quiet hp' := by rcases hp' with hp' | hp' <;> cases hp'
  unregistered := .inr (.inl (hx.not_registered (.inr hp)))

theorem loseRequest (hx : Covered new x) : Covered new { x with request := none } where
  files := hx.files
  suffix := hx.suffix
  saved := hx.saved
  request _ hs := by cases hs
  quiet := hx.quiet
  unregistered := by
    obtain hret | hun | ⟨hp, -, hrest⟩ := hx.unregistered
    · exact .inl hret
    · exact .inr (.inl hun)
    · exact .inr (.inr ⟨hp, rfl, hrest⟩)

theorem loseReply (hx : Covered new x) : Covered new { x with reply := none } where
  files := hx.files
  suffix := hx.suffix
  saved := hx.saved
  request s hs := by
    obtain ⟨hs', hret | ⟨hp, -, hh⟩⟩ := hx.request s hs
    · exact ⟨hs', .inl hret⟩
    · exact ⟨hs', .inr ⟨hp, rfl, hh⟩⟩
  quiet _ := rfl
  unregistered := by
    obtain hret | hun | ⟨hp, hnone, -, htail⟩ := hx.unregistered
    · exact .inl hret
    · exact .inr (.inl hun)
    · exact .inr (.inr ⟨hp, hnone, fun e he => (by cases he), htail⟩)

theorem refused (hx : Covered new x) {s : AppSpec} (hs : x.request = some s) (e : String) :
    Covered new { x with request := none, reply := some (.error e) } := by
  obtain ⟨ok, hp⟩ | ⟨hp, -, hun⟩ := hx.of_request hs
  · exact of_returned hp hx.files hx.suffix (fun _ h => by cases h)
  · refine ⟨hx.files, hx.suffix, hx.saved, fun _ h => (by cases h), fun hp' => ?_,
      .inr (.inl hun)⟩
    rcases hp' with hp' | hp' <;> rw [hp] at hp' <;> cases hp'

/-- The daemon has registered the id of the request: its file is there, and no later instance has
the same id. -/
theorem accepted (hids : (new.map AppSpec.id).Nodup) (hx : Covered new x) {s : AppSpec}
    (hs : x.request = some s)
    (hlate : (∃ ok, x.phase = .returned ok) → s.id ∈ x.daemon.specFiles) {d : Daemon}
    (hreg : d.registered = insert s.id x.daemon.registered)
    (hfiles : x.daemon.specFiles ⊆ d.specFiles) (r : Response) :
    Covered new { x with daemon := d, request := none, reply := some (.ok r) } := by
  have hcover : s.id ∈ x.daemon.specFiles →
      ∀ t ∈ new, t.id ∈ d.registered → t.id ∈ d.specFiles := by
    intro hfile t ht hr
    rw [hreg] at hr
    rcases hr with he | hr
    · rw [he]
      exact hfiles hfile
    · exact hfiles (hx.files t ht hr)
  obtain ⟨ok, hp⟩ | ⟨hp, ⟨rest, htodo⟩, hun⟩ := hx.of_request hs
  · exact of_returned hp (hcover (hlate ⟨ok, hp⟩)) hx.suffix (fun _ h => by cases h)
  · obtain ⟨s', rest', htodo', hfile⟩ := hx.saved (.inr hp)
    obtain ⟨rfl, rfl⟩ := List.cons.inj (htodo.symm.trans htodo')
    refine ⟨hcover hfile, hx.suffix, fun _ => ⟨s, rest, htodo, hfiles hfile⟩,
      fun _ h => (by cases h), fun hp' => ?_,
      .inr (.inr ⟨hp, rfl, fun e he => (by cases he), fun t ht hr => ?_⟩)⟩
    · rcases hp' with hp' | hp' <;> rw [hp] at hp' <;> cases hp'
    · have hnodup : (x.todo.map AppSpec.id).Nodup := hids.sublist (hx.suffix.sublist.map _)
      rw [htodo, List.map_cons, List.nodup_cons] at hnodup
      have ht' : t ∈ rest := by
        rwa [htodo] at ht
      rw [hreg] at hr
      rcases hr with he | hr
      · exact hnodup.1 (List.mem_map.mpr ⟨t, ht', he⟩)
      · exact hun t (by rw [htodo]; exact List.mem_cons_of_mem _ ht') hr

/-- The reply is read: the file of an instance that was refused can go. -/
theorem receive (hx : Covered new x) (hp : x.phase = .waiting) {r : Except String Response}
    (hr : x.reply = some r) :
    match r with
    | .ok _ => Covered new { x with phase := .idle, todo := x.todo.tail, reply := none }
    | .error _ => Covered new { x.rollBack h with reply := none } := by
  have hnone : x.request = none := by
    cases hs : x.request with
    | none => rfl
    | some s =>
        obtain ⟨-, ⟨ok, hp'⟩ | ⟨-, hreply, -⟩⟩ := hx.request s hs
        · rw [hp] at hp'
          cases hp'
        · rw [hr] at hreply
          cases hreply
  have hun : (∀ t ∈ x.todo, t.id ∉ x.daemon.registered) ∨ (∀ e, x.reply ≠ some (.error e)) ∧
      ∀ t ∈ x.todo.tail, t.id ∉ x.daemon.registered := by
    obtain ⟨ok, hp'⟩ | hun | ⟨-, -, hrep, hun⟩ := hx.unregistered
    · rw [hp] at hp'
      cases hp'
    · exact .inl hun
    · exact .inr ⟨hrep, hun⟩
  cases r with
  | ok _ =>
      refine ⟨hx.files, (List.tail_suffix _).trans hx.suffix, fun hp' => ?_, fun s hs => ?_,
        fun _ => rfl, .inr (.inl ?_)⟩
      · rcases hp' with hp' | hp' <;> cases hp'
      · rw [hnone] at hs
        cases hs
      · rcases hun with hun | ⟨-, hun⟩
        · exact fun t ht => hun t (List.mem_of_mem_tail ht)
        · exact hun
  | error e =>
      refine hx.rollBack (fun s hs hreg => ?_) x.request none fun s hs => (hx.request s hs).1
      rcases hun with hun | ⟨hrep, -⟩
      · exact absurd hreg (hun s (List.mem_of_mem_head? hs))
      · exact absurd hr (hrep e)

end Covered

/-! ### Runs -/

/-- The steps that keep the file of a registered instance.  The client does not give up on a request
that the daemon has accepted, unless the file cannot be removed; the daemon accepts no request that
the client has given up on, unless its file is still there. -/
def Exchange.KeepsFile (privileged : Bool) (identity : Identity) (x : Exchange) :
    StartEvent → Prop
  | .giveUp h => x.phase = .waiting → ∀ s, x.todo.head? = some s →
      s.id ∈ x.daemon.registered → h.specRemoveErr s.id ≠ none
  | .handle h => (∃ ok, x.phase = .returned ok) → ∀ s, x.request = some s →
      x.daemon.CanHandle h privileged identity s → s.id ∈ x.daemon.specFiles
  | _ => True

theorem covered_step (hids : (new.map AppSpec.id).Nodup) (x : Exchange) (e : StartEvent)
    (hx : Covered new x) (hk : x.KeepsFile privileged identity e) :
    Covered new (x.step privileged identity e) := by
  have hreq : ∀ s, x.request = some s → s ∈ new := fun s hs => (hx.request s hs).1
  cases e with
  | turn h =>
      simp only [Exchange.step]
      split_ifs with hp
      · exact hx.turn hp
      · exact hx
  | send =>
      simp only [Exchange.step]
      split_ifs with hp
      · exact hx.send hp
      · exact hx
  | sendFailed h delivered =>
      simp only [Exchange.step]
      by_cases hp : x.phase = .saved
      · rw [if_pos hp]
        refine hx.rollBack (fun s hs hreg => ?_) _ x.reply fun s hs => ?_
        · exact absurd hreg (hx.not_registered (.inr hp) s (List.mem_of_mem_head? hs))
        · split_ifs at hs
          exact hx.mem_of_head hs
      · rw [if_neg hp]
        exact hx
  | loseRequest => exact hx.loseRequest
  | handle h =>
      simp only [Exchange.step]
      cases hs : x.request with
      | none => exact hx
      | some s =>
          obtain ⟨e, he⟩ | ⟨hc, d, r, hd, hreg, hfiles⟩ :=
            Daemon.startHandler_effect h privileged x.daemon identity s
          · simp only [he]
            exact hx.refused hs e
          · simp only [hd]
            exact hx.accepted hids hs (fun hret => hk hret s hs hc) hreg hfiles r
  | refuse e =>
      simp only [Exchange.step]
      cases hs : x.request with
      | none => exact hx
      | some s => exact hx.refused hs e
  | loseReply => exact hx.loseReply
  | receive h =>
      simp only [Exchange.step]
      split_ifs with hp
      · cases hr : x.reply with
        | none => exact hx
        | some r =>
            have hreceive := hx.receive (h := h) hp hr
            cases r with
            | ok _ => exact hreceive
            | error _ => exact hreceive
      · exact hx
  | giveUp h =>
      simp only [Exchange.step]
      split_ifs with hp
      · exact hx.rollBack (hk hp) x.request x.reply hreq
      · exact hx

/-- **The files of started instances.** In every run whose steps keep the file of a registered
instance, with ids that are new, once the command has returned every instance that is registered has
its spec file. -/
theorem startProtocol_files (privileged : Bool) (identity : Identity) (d₀ : Daemon)
    (appSpec : AppSpec) (scale : ℤ) (ids now : ℕ → String)
    (hids : ((instances appSpec scale ids now).map AppSpec.id).Nodup)
    (hnew : ∀ s ∈ instances appSpec scale ids now, s.id ∉ d₀.registered) (l : List StartEvent)
    (hl : Along (Exchange.step privileged identity) (Exchange.KeepsFile privileged identity)
      { daemon := d₀, todo := instances appSpec scale ids now } l) :
    let x := l.foldl (Exchange.step privileged identity)
      { daemon := d₀, todo := instances appSpec scale ids now }
    ∀ ok, x.phase = .returned ok → ∀ s ∈ instances appSpec scale ids now,
      s.id ∈ x.daemon.registered → s.id ∈ x.daemon.specFiles := by
  intro x _ _ s hs hr
  exact (Along.invariant (Covered (instances appSpec scale ids now)) (covered_step hids)
    (Covered.init hnew) hl).files s hs hr

/-- One instance of a plain command, at the start of the command. -/
def demoExchange : Exchange where
  daemon := {}
  todo := instances (plainSpec "") 1 (fun _ => demoId) fun _ => "2026-01-01T00:00:00Z"

/-- The request is handled and the reply read. -/
def answeredRun : List StartEvent :=
  [.turn userHost, .send, .handle userHost, .receive userHost, .turn userHost]

theorem startProtocol_files_answered :
    let x := answeredRun.foldl (Exchange.step false ⟨"1000"⟩) demoExchange
    x.phase = .returned true ∧ demoId ∈ x.daemon.registered ∧ demoId ∈ x.daemon.specFiles := by
  have hphase : (answeredRun.foldl (Exchange.step false ⟨"1000"⟩) demoExchange).phase =
      .returned true := by decide +kernel
  have hreg : demoId ∈
      (answeredRun.foldl (Exchange.step false ⟨"1000"⟩) demoExchange).daemon.registered := by
    decide +kernel
  have hwaiting : ([.turn userHost, .send].foldl (Exchange.step false ⟨"1000"⟩)
      demoExchange).phase = .waiting := by decide +kernel
  have hlate : Exchange.KeepsFile false ⟨"1000"⟩ ([.turn userHost, .send].foldl
      (Exchange.step false ⟨"1000"⟩) demoExchange) (.handle userHost) := by
    rintro ⟨ok, hok⟩
    rw [hwaiting] at hok
    cases hok
  refine ⟨hphase, hreg, ?_⟩
  exact startProtocol_files false ⟨"1000"⟩ {} (plainSpec "") 1 (fun _ => demoId)
    (fun _ => "2026-01-01T00:00:00Z") (by decide) (by decide) answeredRun
    ⟨trivial, trivial, hlate, trivial, trivial, trivial⟩ true hphase _ (List.mem_cons_self) hreg

/-- The daemon has started the process, its reply is lost, and the client removes the file. -/
theorem lostReply_removes_file :
    let x := [.turn userHost, .send, .handle userHost, .loseReply, .giveUp userHost].foldl
      (Exchange.step false ⟨"1000"⟩) demoExchange
    x.phase = .returned false ∧ demoId ∈ x.daemon.registered ∧ demoId ∉ x.daemon.specFiles := by
  refine ⟨by decide +kernel, by decide +kernel, by decide +kernel⟩

end Unitpm
