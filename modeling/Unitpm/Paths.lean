import Unitpm.Host
import Unitpm.Lib.OsPath

/-! # Log directories

`internal/paths`: which directories the logs of a process may go to, and the paths of its two log
files.  In system mode the directory has to be inside one of two roots.  `within_root` compares
components; a directory that exists is resolved and compared again, and the components of one that
does not are searched for links that lead out (`path_contains_unsafe_symlink`).

Paths are `OsStr`s here: a resolved path may hold names that are not UTF-8. -/

namespace Unitpm

open Rust.Path Fs

/-- The file system the daemon sees. -/
abbrev Disk : Type := FileSystem FileName

namespace Disk

/-- `fs::canonicalize`. -/
def canonicalize (fs : Disk) (p : OsStr) : Except Errno OsStr :=
  (FileSystem.canonicalize fs (Path.ofText p)).map locationText

/-- `fs::symlink_metadata`. -/
def symlinkMetadata (fs : Disk) (p : OsStr) : Except Errno (Node FileName) :=
  FileSystem.symlinkMetadata fs (Path.ofText p)

/-- `fs::metadata`. -/
def metadata (fs : Disk) (p : OsStr) : Except Errno Metadata :=
  match FileSystem.metadata fs (Path.ofText p) with
  | .error e => .error e
  | .ok (.dir i) => .ok { isFile := false, isDir := true, uid := fs.owner i }
  | .ok (.file i) => .ok { isFile := true, isDir := false, uid := fs.owner i }
  | .ok (.special i) => .ok { isFile := false, isDir := false, uid := fs.owner i }
  | .ok (.symlink _) => .error .filesystemLoop

/-- What `File::open` opens. -/
def openRead (fs : Disk) (p : OsStr) : Except Errno (Node FileName) :=
  FileSystem.openRead fs (Path.ofText p)

/-- Bytes as text. -/
def decodeUtf8 (bytes : List UInt8) : Except String String :=
  match String.fromUTF8? ⟨bytes.toArray⟩ with
  | some text => .ok text
  | none => .error "stream did not contain valid UTF-8"

/-- `fs::read_to_string`. -/
def readToString (fs : Disk) (p : OsStr) : Except String String :=
  match fs.openRead p with
  | .error e => .error e.toText
  | .ok (.file i) => decodeUtf8 (fs.contents i)
  | .ok (.special i) => decodeUtf8 (fs.contents i)
  | .ok (.dir _) => .error Errno.isADirectory.toText
  | .ok (.symlink _) => .error Errno.filesystemLoop.toText

end Disk

/-- The machine with this file system behind the calls of a start request. -/
def Host.onDisk (h : Host) (fs : Disk) : Host :=
  { h with
    canonicalize := fun p => (fs.canonicalize p).toOption
    metadata := fun p => (fs.metadata p).toOption
    readToString := fun p => fs.readToString (OsStr.ofString p) }

/-- `LOG_ROOT`. -/
def logRoot : String := "/var/log/glyndor/unitpm"

/-- `MAX_DIR_LEN`. -/
def maxDirLen : ℕ := 4096

inductive PathError where
  | tooLong
  | invalid
  | notAbsolute
  | outsideAllowedRoots
  | noHome
deriving DecidableEq

/-- `Display for PathError`. -/
def PathError.toText : PathError → String
  | tooLong => "log dir too long"
  | invalid => "invalid log dir"
  | notAbsolute => "invalid log dir: must be absolute in system mode"
  | outsideAllowedRoots => "invalid log dir: outside allowed roots"
  | noHome => "failed to get user home"

/-- `has_parent_dir_traversal`: only the first component is looked at. -/
def hasParentDirTraversal (dir : String) : Bool :=
  (components (OsStr.ofString dir)).head? == some .parentDir

/-! ### Roots -/

/-- `Path::strip_prefix`, the rest by its components. -/
def stripPrefix (path root : OsStr) : Option (List (Component OsChar)) :=
  if (components root).isPrefixOf (components path) then
    some ((components path).drop (components root).length)
  else none

/-- `within_root`. -/
def withinRoot (root path : OsStr) : Bool :=
  match stripPrefix path root with
  | none => false
  | some rel => !rel.contains .parentDir

/-- The loop of `path_contains_unsafe_symlink`. -/
def unsafeSymlinkFrom (fs : Disk) (root : OsStr) : OsStr → List (Component OsChar) → Bool
  | _, [] => false
  | current, .normal seg :: rest =>
      match fs.symlinkMetadata (join current seg) with
      | .error e => e ≠ .notFound
      | .ok info =>
          if info.isSymlink then
            match fs.canonicalize (join current seg) with
            | .error _ => true
            | .ok resolved =>
                if withinRoot root resolved then
                  unsafeSymlinkFrom fs root (join current seg) rest
                else true
          else unsafeSymlinkFrom fs root (join current seg) rest
  | current, _ :: rest => unsafeSymlinkFrom fs root current rest

/-- `path_contains_unsafe_symlink`. -/
def pathContainsUnsafeSymlink (fs : Disk) (root path : OsStr) : Bool :=
  match stripPrefix path root with
  | none => true
  | some rel => unsafeSymlinkFrom fs root root rel

/-- `match_resolved_root`. -/
def matchResolvedRoot (fs : Disk) (root candidate : OsStr) : Bool :=
  match fs.canonicalize candidate with
  | .ok resolved => withinRoot root resolved
  | .error _ => withinRoot root candidate && !pathContainsUnsafeSymlink fs root candidate

/-- `XDG_STATE_HOME/unitpm/logs`, if the variable is set. -/
def stateLogs (h : Host) : Option OsStr :=
  match h.env.var "XDG_STATE_HOME" with
  | none => none
  | some state =>
      if state = "" then none
      else some (join (OsStr.ofString state) (OsStr.ofString "unitpm/logs"))

/-- `allowed_roots`. -/
def allowedRoots (h : Host) : List OsStr := OsStr.ofString logRoot :: (stateLogs h).toList

/-- `resolved_roots`: a root that cannot be resolved stands as it is. -/
def resolvedRoots (h : Host) (fs : Disk) : List OsStr :=
  ((allowedRoots h).filter fun root => isAbsolute root).map fun abs =>
    match fs.canonicalize abs with
    | .ok resolved => resolved
    | .error _ => abs

/-- `resolve_root_log_dir`. -/
def resolveRootLogDir (h : Host) (fs : Disk) (candidate : OsStr) : Except PathError OsStr :=
  if isAbsolute candidate = false then .error .notAbsolute
  else if (resolvedRoots h fs).any fun root =>
      withinRoot root candidate && matchResolvedRoot fs root candidate then
    .ok candidate
  else .error .outsideAllowedRoots

/-! ### Directories -/

/-- `resolve_configured_dir`. -/
def resolveConfiguredDir (h : Host) (fs : Disk) (dir : String) : Except PathError OsStr :=
  if dir.utf8ByteSize > maxDirLen then .error .tooLong
  else if hasParentDirTraversal dir then .error .invalid
  else if h.systemMode then resolveRootLogDir h fs (OsStr.ofString dir)
  else .ok (OsStr.ofString dir)

/-- `resolve_default_dir`. -/
def resolveDefaultDir (h : Host) : Except PathError OsStr :=
  if h.systemMode then .ok (OsStr.ofString logRoot)
  else match stateLogs h with
    | some dir => .ok dir
    | none =>
        match h.env.var "HOME" with
        | none => .error .noHome
        | some home =>
            .ok (join (OsStr.ofString home) (OsStr.ofString ".local/state/unitpm/logs"))

/-- `get_log_dir`. -/
def getLogDir (h : Host) (fs : Disk) (configuredDir : String) : Except PathError OsStr :=
  if configuredDir = "" then resolveDefaultDir h else resolveConfiguredDir h fs configuredDir

/-! ### Files -/

/-- The file a stream is logged to: by default, absolute, or in the directory of the process. -/
def streamPath (appLogDir : OsStr) (default file : String) : OsStr :=
  if file = "" then join appLogDir (OsStr.ofString default)
  else if isAbsolute (OsStr.ofString file) then OsStr.ofString file
  else join appLogDir (OsStr.ofString file)

/-- `resolve_log_paths`. -/
def resolveLogPaths (h : Host) (fs : Disk) (specId logsDir stdout stderr : String) :
    Except PathError (OsStr × OsStr) :=
  match getLogDir h fs logsDir with
  | .error e => .error e
  | .ok logDir =>
      let appLogDir := join logDir (OsStr.ofString specId)
      .ok (streamPath appLogDir "stdout.log" stdout, streamPath appLogDir "stderr.log" stderr)

/-- The log section of a spec, absent strings being empty. -/
def AppSpec.logsDir (s : AppSpec) : String := orEmpty (s.logs.bind AppLogs.dir)

def AppSpec.logsStdout (s : AppSpec) : String := orEmpty (s.logs.bind AppLogs.stdout)

def AppSpec.logsStderr (s : AppSpec) : String := orEmpty (s.logs.bind AppLogs.stderr)

end Unitpm
