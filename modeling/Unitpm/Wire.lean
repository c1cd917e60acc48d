import Unitpm.Lib.Serde
import Unitpm.Protocol

/-! # The wire format

The structs of `internal/ipc/protocol` as they are written to JSON and read from it: the derived
implementations, one description a struct (`Serde.Record`), the names of the fields as the
attributes give them.  `AppSpec.shape` and the shapes of the `start` messages are then what
`jsonx::marshal` and `jsonx::unmarshal` do on them.

`Valid` of a shape asks of a struct what the types of the source promise: that an integer fits its
type. -/

namespace Unitpm

open Serde

/-! ### String maps -/

/-- The string a tree is, where it is one. -/
def stringOf : Json → String
  | .str s => s
  | _ => ""

/-- The entries of a map from strings to strings. -/
def decodeEntries : List (String × Json) → Except Serde.Error (List (String × String))
  | [] => .ok []
  | (k, j) :: l =>
      match Serde.string.decode j with
      | .error e => .error e
      | .ok v => (decodeEntries l).map ((k, v) :: ·)

theorem decodeEntries_eq {l : List (String × Json)} (h : ∀ p ∈ l, ∃ s, p.2 = .str s) :
    decodeEntries l = .ok (l.map fun p => (p.1, stringOf p.2)) := by
  induction l with
  | nil => rfl
  | cons p l ih =>
      obtain ⟨k, j⟩ := p
      obtain ⟨⟨s, hs⟩, hl⟩ := List.forall_mem_cons.mp h
      obtain rfl : j = .str s := hs
      rw [decodeEntries, ih hl]
      rfl

/-- `BTreeMap<String, String>`. -/
def BTreeMap.shape : Shape BTreeMap where
  Valid _ := True
  encode m := .obj (m.entries.map fun p => (p.1, .str p.2))
  decode
    | .obj l =>
        match decodeEntries l with
        | .error e => .error e
        | .ok entries => .ok ⟨ofMembers entries, sorted_ofMembers entries⟩
    | _ => .error (.invalidType "a map")
  decode_rearranged := by
    intro f hf m _
    obtain ⟨l, hl, hperm⟩ := hf.obj (m.entries.map fun p => (p.1, Json.str p.2))
    have hkeys : ((m.entries.map fun p => (p.1, Json.str p.2)).map Prod.fst).Nodup := by
      rw [List.map_map]
      exact m.sorted.imp fun hlt => ne_of_lt hlt
    have hperm := hperm hkeys
    rw [List.map_map] at hperm
    have hstr : ∀ p ∈ l, ∃ s, p.2 = .str s := by
      intro p hp
      obtain ⟨q, -, rfl⟩ := List.mem_map.mp (hperm.mem_iff.mp hp)
      exact ⟨q.2, hf.str q.2⟩
    have hentries : (l.map fun p => (p.1, stringOf p.2)).Perm m.entries := by
      have := hperm.map fun p : String × Json => (p.1, stringOf p.2)
      simpa [Function.comp_def, hf.str, stringOf] using this
    rw [hl]
    simp only [decodeEntries_eq hstr, ofMembers_eq_of_perm m.sorted hentries]
  encode_ne_null _ := by simp

/-- `BTreeMap::insert`. -/
def BTreeMap.insert (m : BTreeMap) (k v : String) : BTreeMap :=
  ⟨insertMember k v m.entries, sorted_insertMember m.sorted⟩

/-! ### Specifications -/

namespace AppExec

def record : Record AppExec AppExec :=
  Record.nil AppExec.mk
    |>.required "type" kind string
    |>.optional "command" command string
    |>.optional "args" args (vec string)
    |>.optional "entry" entry string
    |>.optional "runtime" runtime string
    |>.flag "shell" shell

def shape : Shape AppExec := record.shape (fun _ => rfl) (by decide)

end AppExec

namespace AppLogs

def record : Record AppLogs AppLogs :=
  Record.nil AppLogs.mk
    |>.required "mode" mode string
    |>.optional "dir" dir string
    |>.optional "stdout" stdout string
    |>.optional "stderr" stderr string
    |>.optional "format" format string
    |>.optional "timestamp" timestamp string

def shape : Shape AppLogs := record.shape (fun _ => rfl) (by decide)

end AppLogs

namespace AppRestart

def record : Record AppRestart AppRestart :=
  Record.nil AppRestart.mk
    |>.required "policy" policy string
    |>.optional "maxRetries" maxRetries i32
    |>.optional "backoffMs" backoffMs i32
    |>.optional "backoffType" backoffType string
    |>.optional "stopOnExit" stopOnExit (vec i32)

def shape : Shape AppRestart := record.shape (fun _ => rfl) (by decide)

end AppRestart

namespace RunAsPolicy

def record : Record RunAsPolicy RunAsPolicy :=
  Record.nil RunAsPolicy.mk
    |>.required "mode" mode string

def shape : Shape RunAsPolicy := record.shape (fun _ => rfl) (by decide)

end RunAsPolicy

namespace AppStop

def record : Record AppStop AppStop :=
  Record.nil AppStop.mk
    |>.optional "signal" signal string
    |>.optional "timeoutMs" timeoutMs i32

def shape : Shape AppStop := record.shape (fun _ => rfl) (by decide)

end AppStop

namespace AppResources

def record : Record AppResources AppResources :=
  Record.nil AppResources.mk
    |>.optional "memory_max_bytes" memoryMaxBytes i64
    |>.optional "cpu_max_percent" cpuMaxPercent i32
    |>.optional "tasks_max" tasksMax i32

def shape : Shape AppResources := record.shape (fun _ => rfl) (by decide)

end AppResources

namespace AppWatch

def record : Record AppWatch AppWatch :=
  Record.nil AppWatch.mk
    |>.required "enabled" enabled bool
    |>.optional "ignore" ignore (vec string)

def shape : Shape AppWatch := record.shape (fun _ => rfl) (by decide)

end AppWatch

namespace AppSpec

def record : Record AppSpec AppSpec :=
  Record.nil AppSpec.mk
    |>.required "version" version i32
    |>.required "id" id string
    |>.required "name" name string
    |>.optional "namespace" ns string
    |>.required "exec" exec AppExec.shape
    |>.optional "cwd" cwd string
    |>.optional "env" env BTreeMap.shape
    |>.optional "envFile" envFile string
    |>.optional "logs" logs AppLogs.shape
    |>.optional "restart" restart AppRestart.shape
    |>.optional "cron" cron string
    |>.optional "runAs" runAs RunAsPolicy.shape
    |>.optional "stop" stop AppStop.shape
    |>.optional "resources" resources AppResources.shape
    |>.optional "watch" watch AppWatch.shape
    |>.optional "createdAt" createdAt string
    |>.flag "disabled" disabled

def shape : Shape AppSpec := record.shape (fun _ => rfl) (by decide)

end AppSpec

/-! ### The messages of `start` -/

/-- Request payload for the `start` command. -/
structure StartRequest where
  protocolVersion : ℤ
  requestId : String
  kind : String
  spec : AppSpec
deriving DecidableEq

/-- Success payload of a `start` response. -/
structure StartResponseData where
  id : String
  procId : Option String := none
  pid : Option ℤ := none
  status : Option String := none
  message : Option String := none
  createdAt : Option String := none
deriving DecidableEq

/-- Error payload of a `start` response. -/
structure StartError where
  code : String
  message : String
deriving DecidableEq

/-- Response for a `start` request. -/
structure StartResponse where
  protocolVersion : ℤ
  kind : String
  requestId : String
  ok : Bool
  data : Option StartResponseData := none
  error : Option StartError := none
deriving DecidableEq

namespace StartRequest

def record : Record StartRequest StartRequest :=
  Record.nil StartRequest.mk
    |>.required "protocol_version" protocolVersion i32
    |>.required "request_id" requestId string
    |>.required "type" kind string
    |>.required "spec" spec AppSpec.shape

def shape : Shape StartRequest := record.shape (fun _ => rfl) (by decide)

end StartRequest

namespace StartResponseData

def record : Record StartResponseData StartResponseData :=
  Record.nil StartResponseData.mk
    |>.required "id" id string
    |>.optional "proc_id" procId string
    |>.optional "pid" pid i32
    |>.optional "status" status string
    |>.optional "message" message string
    |>.optional "created_at" createdAt string

def shape : Shape StartResponseData := record.shape (fun _ => rfl) (by decide)

end StartResponseData

namespace StartError

def record : Record StartError StartError :=
  Record.nil StartError.mk
    |>.required "code" code string
    |>.required "message" message string

def shape : Shape StartError := record.shape (fun _ => rfl) (by decide)

end StartError

namespace StartResponse

def record : Record StartResponse StartResponse :=
  Record.nil StartResponse.mk
    |>.required "protocol_version" protocolVersion i32
    |>.required "type" kind string
    |>.required "request_id" requestId string
    |>.required "ok" ok bool
    |>.optional "data" data StartResponseData.shape
    |>.optional "error" error StartError.shape

def shape : Shape StartResponse := record.shape (fun _ => rfl) (by decide)

end StartResponse

/-! ### Raw messages -/

/-- `jsonx::RawMessage`: the bytes of a JSON text, or none. -/
inductive RawMessage where
  | empty
  | json (j : Json)

namespace RawMessage

variable {α : Type}

/-- `RawMessage::from_bytes` of what `jsonx::marshal` writes. -/
def marshal (c : Shape α) (a : α) : RawMessage := .json (c.encode a)

/-- `jsonx::unmarshal` of its bytes. -/
def unmarshal (c : Shape α) : RawMessage → Except Serde.Error α
  | .empty => .error .eof
  | .json j => c.decode j

/-- What arrives of an `Option<RawMessage>` in an envelope: both ends pass it through a
`serde_json::Value`, and `null` is no message. -/
def sent : Option RawMessage → Option RawMessage
  | none => none
  | some .empty => none
  | some (.json .null) => none
  | some (.json j) => some (.json (toValue (toValue j)))

theorem sent_marshal (c : Shape α) (a : α) :
    sent (some (marshal c a)) = some (.json (toValue (toValue (c.encode a)))) := by
  have hnull := c.encode_ne_null a
  unfold marshal
  cases hj : c.encode a with
  | null => exact absurd hj hnull
  | _ => rfl

end RawMessage

end Unitpm
