import Unitpm.Dispatch
import Unitpm.Flush

/-! # The audit log

`internal/daemon/handlers`: the eight verbs that change something, from the parameters on, with the
records they write to the audit log (`audit_event`).  A handler takes the lock of the manager
several times, and other requests run in between; `others n` is what they do to the daemon before
the `n`-th time.

`audited_iff` says on which requests a handler writes the one record that the log is for.  Without
other requests the handlers are those of `Service` and `Flush` (`handle_of_decoded`). -/

namespace Unitpm

open Serde

/-! ### Parameters -/

/-- `IdArgs`. -/
structure IdArgs where
  id : String

/-- `DeleteArgs`. -/
structure DeleteArgs where
  id : String
  purge : Bool

/-- `ScaleArgs`. -/
structure ScaleArgs where
  name : String
  ns : String
  target : ℤ

def IdArgs.shape : Shape IdArgs :=
  Record.shape (Record.nil IdArgs.mk |>.required "id" id string) (fun _ => rfl) (by decide)

def DeleteArgs.shape : Shape DeleteArgs :=
  Record.shape
    (Record.nil DeleteArgs.mk |>.required "id" id string |>.withDefault "purge" purge false bool)
    (fun _ => rfl) (by decide)

def ScaleArgs.shape : Shape ScaleArgs :=
  Record.shape
    (Record.nil ScaleArgs.mk
      |>.withDefault "name" name "" string
      |>.withDefault "namespace" ns "" string
      |>.required "target" target i32)
    (fun _ => rfl) (by decide)

/-! ### Handlers -/

/-- The verbs that change something. -/
inductive Verb where
  | start
  | stop
  | delete
  | restart
  | reload
  | reset
  | flush
  | scale
deriving DecidableEq

/-- The name a verb is registered under. -/
def Verb.name : Verb → String
  | start => "start"
  | stop => "stop"
  | delete => "delete"
  | restart => "restart"
  | reload => "reload"
  | reset => "reset"
  | flush => "flush"
  | scale => "scale"

/-- What the handlers answer. -/
inductive Answer where
  | response (r : Response)
  | flushed (r : FlushResponse)

/-- What a handler leaves: the daemon and the disk, the audit records, the answer. -/
structure Handled where
  daemon : Daemon
  disk : Disk
  events : List AuditEvent
  result : Except String Answer

/-- `audit_event`; `info` is name and namespace. -/
def auditEvent (identity : Identity) (action target : String) (info : String × String)
    (success : Bool) (err : Option String) : AuditEvent where
  action := action
  target := target
  identity := identity
  name := info.1
  ns := info.2
  success := success
  error := err.getD ""

namespace Audit

variable (h : Host) (privileged : Bool) (errText : Serde.Error → String)
  (others : ℕ → Daemon → Daemon) (disk : Disk) (d : Daemon) (identity : Identity)
  (params : RawMessage)

/-- `start_handler`. -/
def startHandler : Handled :=
  match params.unmarshal StartRequest.shape with
  | .error e => ⟨d, disk, [], .error ("ERR_BAD_REQUEST: " ++ errText e)⟩
  | .ok req =>
      match (others 0 d).startHandler h privileged identity req.spec with
      | (d, r) => ⟨d, disk, [], r.map .response⟩

/-- `stop_handler`. -/
def stopHandler : Handled :=
  match params.unmarshal IdArgs.shape with
  | .error e => ⟨d, disk, [], .error ("ERR_BAD_REQUEST: " ++ errText e)⟩
  | .ok args =>
      let d := others 0 d
      match d.resolveId h args.id with
      | .error e =>
          ⟨d, disk, [auditEvent identity "stop" args.id ("", "") false (some e.toText)],
            .error e.toText⟩
      | .ok id =>
          let d := others 1 d
          let info := processMeta d id
          let d := others 2 d
          let was := ((d.processes.lookup id).map fun p => wasRunning p.info.state).getD false
          match (others 3 d).stop h id with
          | (d, .ok _) =>
              ⟨d, disk, [auditEvent identity "stop" id info true none],
                .ok (.response (.stopped id was))⟩
          | (d, .error e) =>
              ⟨d, disk, [auditEvent identity "stop" id info false (some e.toText)],
                .error e.toText⟩

/-- `delete_handler`.  The log directory that `purge` asks for and the credentials are removed after
the record is written; they are not part of the state here. -/
def deleteHandler : Handled :=
  match params.unmarshal DeleteArgs.shape with
  | .error e => ⟨d, disk, [], .error ("ERR_BAD_REQUEST: " ++ errText e)⟩
  | .ok args =>
      let d := others 0 d
      match d.resolveId h args.id with
      | .error e =>
          ⟨d, disk, [auditEvent identity "delete" args.id ("", "") false (some e.toText)],
            .error e.toText⟩
      | .ok id =>
          let d := others 1 d
          let info := processMeta d id
          match (others 2 d).delete h id with
          | (d, .ok _) =>
              ⟨(others 3 d).deleteSpec h id, disk,
                [auditEvent identity "delete" id info true none],
                .ok (.response (.done "deleted" id))⟩
          | (d, .error e) =>
              ⟨d, disk, [auditEvent identity "delete" id info false (some e.toText)],
                .error e.toText⟩

/-- `register_id_verb`. -/
def idVerbHandler (verb past : String)
    (action : Host → Daemon → String → Daemon × Except ManagerError Unit) : Handled :=
  match params.unmarshal IdArgs.shape with
  | .error e => ⟨d, disk, [], .error ("ERR_BAD_REQUEST: " ++ errText e)⟩
  | .ok args =>
      let d := others 0 d
      match d.resolveId h args.id with
      | .error e =>
          ⟨d, disk, [auditEvent identity verb args.id ("", "") false (some e.toText)],
            .error e.toText⟩
      | .ok id =>
          match action h (others 1 d) id with
          | (d, .ok _) =>
              let d := others 2 d
              ⟨d, disk, [auditEvent identity verb id (processMeta d id) true none],
                .ok (.response (.done past id))⟩
          | (d, .error e) =>
              ⟨d, disk, [auditEvent identity verb id ("", "") false (some e.toText)],
                .error e.toText⟩

/-- `scale_handler`. -/
def scaleHandler : Handled :=
  match params.unmarshal ScaleArgs.shape with
  | .error e => ⟨d, disk, [], .error ("ERR_BAD_REQUEST: " ++ errText e)⟩
  | .ok args =>
      if args.target < 0 then
        let msg := "ERR_BAD_REQUEST: target count must be >= 0"
        ⟨d, disk, [auditEvent identity "scale" args.name (args.name, args.ns) false (some msg)],
          .error msg⟩
      else match (others 0 d).scale h args.ns args.name args.target.toNat with
        | (d, .ok r) =>
            ⟨d, disk, [auditEvent identity "scale" args.name (args.name, args.ns) true none],
              .ok (.response (.scaled r))⟩
        | (d, .error e) =>
            ⟨d, disk,
              [auditEvent identity "scale" args.name (args.name, args.ns) false (some e.toText)],
              .error e.toText⟩

/-- `flush_handler`. -/
def flushHandler : Handled :=
  match params.unmarshal IdArgs.shape with
  | .error e => ⟨d, disk, [], .error ("ERR_BAD_REQUEST: " ++ errText e)⟩
  | .ok args =>
      let d := others 0 d
      match d.resolveId h args.id with
      | .error e =>
          ⟨d, disk, [auditEvent identity "flush" args.id ("", "") false (some e.toText)],
            .error e.toText⟩
      | .ok id =>
          let d := others 1 d
          let info := processMeta d id
          let d := others 2 d
          match flushSpec h d id with
          | none =>
              let msg := "process not found: " ++ args.id
              ⟨d, disk, [auditEvent identity "flush" id info false (some msg)], .error msg⟩
          | some s =>
              match flushLogs h disk id s with
              | (disk, .ok r) =>
                  ⟨d, disk, [auditEvent identity "flush" id info true none], .ok (.flushed r)⟩
              | (disk, .error msg) =>
                  ⟨d, disk, [auditEvent identity "flush" id info false (some msg)], .error msg⟩

/-- `register_handlers`, for the verbs that change something. -/
def handler : Verb → Handled
  | .start => startHandler h privileged errText others disk d identity params
  | .stop => stopHandler h errText others disk d identity params
  | .delete => deleteHandler h errText others disk d identity params
  | .restart =>
      idVerbHandler h errText others disk d identity params "restart" "restarted" Daemon.restart
  | .reload =>
      idVerbHandler h errText others disk d identity params "reload" "reloaded" Daemon.reload
  | .reset =>
      idVerbHandler h errText others disk d identity params "reset" "reset" fun _ => Daemon.reset
  | .flush => flushHandler h errText others disk d identity params
  | .scale => scaleHandler h errText others disk d identity params

end Audit

/-! ### What is recorded -/

/-- The parameters are what the verb reads. -/
def Verb.decodes (params : RawMessage) : Verb → Bool
  | .start => (params.unmarshal StartRequest.shape).isOk
  | .delete => (params.unmarshal DeleteArgs.shape).isOk
  | .scale => (params.unmarshal ScaleArgs.shape).isOk
  | _ => (params.unmarshal IdArgs.shape).isOk

/-- One record, which names the verb and says how the request ended. -/
def Handled.Audited (verb : Verb) (r : Handled) : Prop :=
  ∃ e, r.events = [e] ∧ e.action = verb.name ∧ e.success = r.result.isOk

theorem Handled.not_audited {verb : Verb} {r : Handled} (h : r.events = []) : ¬ r.Audited verb := by
  rintro ⟨e, he, -⟩
  rw [h] at he
  cases he

namespace Audit

variable {h : Host} {privileged : Bool} {errText : Serde.Error → String}
  {others : ℕ → Daemon → Daemon} {disk : Disk} {d : Daemon} {identity : Identity}
  {params : RawMessage}

theorem startHandler_events :
    (startHandler h privileged errText others disk d identity params).events = [] := by
  unfold startHandler
  split <;> rfl

theorem audited_iff_isOk {α : Type} {verb : Verb} {r : Handled} {x : Except Serde.Error α}
    (hbad : ∀ e, x = .error e → r.events = []) (hgood : ∀ a, x = .ok a → r.Audited verb) :
    r.Audited verb ↔ x.isOk = true := by
  cases x with
  | error e => exact iff_of_false (Handled.not_audited (hbad e rfl)) Bool.false_ne_true
  | ok a => exact iff_of_true (hgood a rfl) rfl

theorem stopHandler_audited :
    (stopHandler h errText others disk d identity params).Audited .stop ↔
      (params.unmarshal IdArgs.shape).isOk = true := by
  unfold stopHandler
  apply audited_iff_isOk (fun e he => by rw [he])
  intro args hargs
  rw [hargs]
  simp only
  split
  · exact ⟨_, rfl, rfl, rfl⟩
  · split
    · exact ⟨_, rfl, rfl, rfl⟩
    · exact ⟨_, rfl, rfl, rfl⟩

theorem deleteHandler_audited :
    (deleteHandler h errText others disk d identity params).Audited .delete ↔
      (params.unmarshal DeleteArgs.shape).isOk = true := by
  unfold deleteHandler
  apply audited_iff_isOk (fun e he => by rw [he])
  intro args hargs
  rw [hargs]
  simp only
  split
  · exact ⟨_, rfl, rfl, rfl⟩
  · split
    · exact ⟨_, rfl, rfl, rfl⟩
    · exact ⟨_, rfl, rfl, rfl⟩

theorem idVerbHandler_audited (verb : Verb) (past : String)
    {action : Host → Daemon → String → Daemon × Except ManagerError Unit} :
    (idVerbHandler h errText others disk d identity params verb.name past action).Audited verb ↔
      (params.unmarshal IdArgs.shape).isOk = true := by
  unfold idVerbHandler
  apply audited_iff_isOk (fun e he => by rw [he])
  intro args hargs
  rw [hargs]
  simp only
  split
  · exact ⟨_, rfl, rfl, rfl⟩
  · split
    · exact ⟨_, rfl, rfl, rfl⟩
    · exact ⟨_, rfl, rfl, rfl⟩

theorem scaleHandler_audited :
    (scaleHandler h errText others disk d identity params).Audited .scale ↔
      (params.unmarshal ScaleArgs.shape).isOk = true := by
  unfold scaleHandler
  apply audited_iff_isOk (fun e he => by rw [he])
  intro args hargs
  rw [hargs]
  simp only
  split
  · exact ⟨_, rfl, rfl, rfl⟩
  · split
    · exact ⟨_, rfl, rfl, rfl⟩
    · exact ⟨_, rfl, rfl, rfl⟩

theorem flushHandler_audited :
    (flushHandler h errText others disk d identity params).Audited .flush ↔
      (params.unmarshal IdArgs.shape).isOk = true := by
  unfold flushHandler
  apply audited_iff_isOk (fun e he => by rw [he])
  intro args hargs
  rw [hargs]
  simp only
  split
  · exact ⟨_, rfl, rfl, rfl⟩
  · split
    · exact ⟨_, rfl, rfl, rfl⟩
    · split
      · exact ⟨_, rfl, rfl, rfl⟩
      · exact ⟨_, rfl, rfl, rfl⟩

/-- **What is recorded.**  Whatever other requests do meanwhile, a handler writes exactly one
record, with its verb and its outcome, for the requests whose parameters it reads; and `start`
writes none. -/
theorem audited_iff (h : Host) (privileged : Bool) (errText : Serde.Error → String)
    (others : ℕ → Daemon → Daemon) (disk : Disk) (d : Daemon) (identity : Identity)
    (params : RawMessage) (verb : Verb) :
    (handler h privileged errText others disk d identity params verb).Audited verb ↔
      verb ≠ .start ∧ verb.decodes params = true := by
  cases verb with
  | start =>
      refine iff_of_false (Handled.not_audited startHandler_events) fun hn => hn.1 rfl
  | stop => exact stopHandler_audited.trans (and_iff_right nofun).symm
  | delete => exact deleteHandler_audited.trans (and_iff_right nofun).symm
  | restart => exact (idVerbHandler_audited .restart _).trans (and_iff_right nofun).symm
  | reload => exact (idVerbHandler_audited .reload _).trans (and_iff_right nofun).symm
  | reset => exact (idVerbHandler_audited .reset _).trans (and_iff_right nofun).symm
  | flush => exact flushHandler_audited.trans (and_iff_right nofun).symm
  | scale => exact scaleHandler_audited.trans (and_iff_right nofun).symm

/-- A start that succeeds and a stop without an id leave no record. -/
theorem unaudited_requests :
    (handler userHost false (fun _ => "json error") (fun _ d => d) loggedDisk {} ⟨"1000"⟩
        (.marshal StartRequest.shape Ipc.demoRequest) .start).result.isOk = true ∧
      (handler userHost false (fun _ => "json error") (fun _ d => d) loggedDisk {} ⟨"1000"⟩
        (.marshal StartRequest.shape Ipc.demoRequest) .start).events = [] ∧
      (handler userHost false (fun _ => "json error") (fun _ d => d) loggedDisk {} ⟨"1000"⟩
        (.json (.obj [])) .stop).events = [] :=
  ⟨by decide +kernel, startHandler_events, rfl⟩

/-! ### Without other requests -/

/-- What the parameters of a verb ask for, where they are read. -/
inductive Asks (identity : Identity) (params : RawMessage) : Verb → Request → Prop
  | start {req : StartRequest} (hp : params.unmarshal StartRequest.shape = .ok req) :
      Asks identity params .start (.start identity req.spec)
  | stop {a : IdArgs} (hp : params.unmarshal IdArgs.shape = .ok a) :
      Asks identity params .stop (.stop a.id)
  | delete {a : DeleteArgs} (hp : params.unmarshal DeleteArgs.shape = .ok a) :
      Asks identity params .delete (.delete a.id)
  | restart {a : IdArgs} (hp : params.unmarshal IdArgs.shape = .ok a) :
      Asks identity params .restart (.restart a.id)
  | reload {a : IdArgs} (hp : params.unmarshal IdArgs.shape = .ok a) :
      Asks identity params .reload (.reload a.id)
  | reset {a : IdArgs} (hp : params.unmarshal IdArgs.shape = .ok a) :
      Asks identity params .reset (.reset a.id)
  | scale {a : ScaleArgs} (hp : params.unmarshal ScaleArgs.shape = .ok a) :
      Asks identity params .scale (.scale a.name a.ns a.target)

theorem idVerbHandler_alone {verb past : String}
    {action : Host → Daemon → String → Daemon × Except ManagerError Unit} {a : IdArgs}
    (hp : params.unmarshal IdArgs.shape = .ok a) :
    let r := idVerbHandler h errText (fun _ d => d) disk d identity params verb past action
    let s := d.idHandler h a.id action (.done past)
    r.daemon = s.1 ∧ r.result = s.2.map .response := by
  unfold idVerbHandler Daemon.idHandler
  rw [hp]
  simp only
  cases d.resolveId h a.id with
  | error e => exact ⟨rfl, rfl⟩
  | ok id =>
      simp only
      cases action h d id with
      | mk d' r => cases r <;> exact ⟨rfl, rfl⟩

theorem flushHandler_alone {a : IdArgs} (hp : params.unmarshal IdArgs.shape = .ok a) :
    let r := flushHandler h errText (fun _ d => d) disk d identity params
    let s := Unitpm.flushHandler h disk d identity a.id
    r.disk = s.1 ∧ r.events = s.2.1 ∧ r.result = s.2.2.map .flushed := by
  unfold flushHandler Unitpm.flushHandler
  rw [hp]
  simp only
  cases d.resolveId h a.id with
  | error e => exact ⟨rfl, rfl, rfl⟩
  | ok id =>
      simp only
      cases flushSpec h d id with
      | none => exact ⟨rfl, rfl, rfl⟩
      | some s =>
          simp only
          cases flushLogs h disk id s with
          | mk disk' r => cases r <;> exact ⟨rfl, rfl, rfl⟩

/-- Without other requests, what a handler does to the daemon and what it answers is what `Service`
says. -/
theorem handle_of_decoded {verb : Verb} {req : Request} (hreq : Asks identity params verb req) :
    let r := handler h privileged errText (fun _ d => d) disk d identity params verb
    r.daemon = (d.handle h privileged req).1 ∧
      r.result = (d.handle h privileged req).2.map .response := by
  cases hreq with
  | start hp =>
      simp only [handler, startHandler, hp, Daemon.handle, and_self]
  | stop hp =>
      rename_i a
      simp only [handler, stopHandler, hp, Daemon.handle, Daemon.stopHandler, Daemon.idHandler]
      cases d.resolveId h a.id with
      | error e => exact ⟨rfl, rfl⟩
      | ok id =>
          simp only
          cases d.stop h id with
          | mk d' r => cases r <;> exact ⟨rfl, rfl⟩
  | delete hp =>
      rename_i a
      simp only [handler, deleteHandler, hp, Daemon.handle, Daemon.deleteHandler,
        Daemon.idHandler, Daemon.deleteWithSpec]
      cases d.resolveId h a.id with
      | error e => exact ⟨rfl, rfl⟩
      | ok id =>
          simp only
          cases d.delete h id with
          | mk d' r => cases r <;> exact ⟨rfl, rfl⟩
  | restart hp => exact idVerbHandler_alone hp
  | reload hp => exact idVerbHandler_alone hp
  | reset hp => exact idVerbHandler_alone hp
  | scale hp =>
      rename_i a
      simp only [handler, scaleHandler, hp, Daemon.handle, Daemon.scaleHandler]
      split_ifs with hneg
      · exact ⟨rfl, rfl⟩
      · cases d.scale h a.ns a.name a.target.toNat with
        | mk d' r => cases r <;> exact ⟨rfl, rfl⟩

end Audit

end Unitpm
