import Unitpm.Protocol

/-! # The `systemd-run` argument list

`internal/daemon/manager/systemd.rs`: the arguments of `--isolation dynamic`, in the order of
the source. -/

namespace Unitpm

/-- The module `directives`. -/
def directives : List String :=
  ["DynamicUser=yes", "NoNewPrivileges=yes", "PrivateTmp=yes", "ProtectSystem=strict",
    "ProtectHome=yes", "ProtectProc=invisible"]

/-- The values that `build_args` puts first. -/
def hardening : List String :=
  ["DynamicUser=yes", "NoNewPrivileges=yes", "PrivateTmp=yes", "ProtectSystem=strict",
    "ProtectHome=yes", "ProtectProc=invisible"]

def execEnvSubcommand : String := "_exec-env"

def unitNamePrefix : String := "unitpm-app-"

structure DynamicContext where
  id : String
  name : String
  cwd : String
  resources : Option AppResources

inductive DynamicError where
  | emptyId
deriving DecidableEq, Repr

structure DynamicCommand where
  binary : String
  args : List String
  wrapperBinary : String := ""
  envPath : String := ""
deriving DecidableEq

/-- A `-p` directive, emitted when the limit is set and positive. -/
def limitArg (limit : Option ℤ) (directive : ℤ → String) : List String :=
  match limit with
  | some n => if n > 0 then ["-p", directive n] else []
  | none => []

/-- The resource directives. -/
def resourceArgs (r : AppResources) : List String :=
  limitArg r.memoryMaxBytes (fun n => "MemoryMax=" ++ toString n) ++
    (limitArg r.cpuMaxPercent (fun n => "CPUQuota=" ++ toString n ++ "%") ++
      limitArg r.tasksMax (fun n => "TasksMax=" ++ toString n))

namespace DynamicCommand

/-- `DynamicCommand::build_args`. -/
def buildArgs (ctx : DynamicContext) : Except DynamicError (List String) :=
  if ctx.id = "" then .error .emptyId
  else .ok (["--unit=" ++ unitNamePrefix ++ ctx.id, "--description=" ++ ctx.name] ++
    hardening.flatMap (fun d => ["-p", d]) ++ ["--pipe", "--wait"] ++
    (if ctx.cwd = "" then [] else ["-p", "WorkingDirectory=" ++ ctx.cwd]) ++
    (match ctx.resources with
      | some r => resourceArgs r
      | none => []) ++ ["--"])

def withWrapperBinary (c : DynamicCommand) (bin : String) : DynamicCommand :=
  { c with wrapperBinary := bin }

/-- The loop of `with_env_path`: the credential directive goes before the first `--pipe`. -/
def insertCredential (envPath : String) : List String → List String
  | [] => []
  | a :: l =>
      if a = "--pipe" then "-p" :: ("LoadCredential=env:" ++ envPath) :: a :: l
      else a :: insertCredential envPath l

def withEnvPath (c : DynamicCommand) (envPath : String) : DynamicCommand :=
  { c with envPath := envPath, args := insertCredential envPath c.args }

def fullArgv (c : DynamicCommand) (wrappedBin : String) (wrappedArgs : List String) :
    List String :=
  c.args ++ [c.wrapperBinary, execEnvSubcommand, wrappedBin] ++ wrappedArgs

end DynamicCommand

/-- `dynamic_command`.  The `expect` in the source makes an empty id a panic; here it is the
error, and `Process.new` lets no empty id through. -/
def dynamicCommand (ctx : DynamicContext) : Except DynamicError DynamicCommand :=
  (DynamicCommand.buildArgs ctx).map fun args => { binary := "systemd-run", args := args }

end Unitpm
