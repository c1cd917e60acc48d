import Unitpm.Lib.Str
import Unitpm.Lib.Overlay
import Unitpm.Lib.Path
import Unitpm.Lib.Fs
import Unitpm.Lib.OsPath
import Unitpm.Lib.Json
import Unitpm.Lib.Serde
import Unitpm.Lib.Frames
import Unitpm.Lib.TailReader
import Unitpm.Lib.TokenBucket
import Unitpm.Lib.Utf8
import Unitpm.Lib.Sh
import Unitpm.Lib.Sections
import Unitpm.Protocol
import Unitpm.Wire
import Unitpm.Manifest
import Unitpm.Export
import Unitpm.Dotenv
import Unitpm.Host
import Unitpm.Systemd
import Unitpm.Paths
import Unitpm.Spawn
import Unitpm.ShellQuote
import Unitpm.ChildEnv
import Unitpm.Sandbox
import Unitpm.Isolation
import Unitpm.Validate
import Unitpm.LogPaths
import Unitpm.LogRoot
import Unitpm.LogTime
import Unitpm.LogEntry
import Unitpm.LogWriter
import Unitpm.Follow
import Unitpm.Rotate
import Unitpm.FollowRotate
import Unitpm.Archives
import Unitpm.Retention
import Unitpm.RotateFaults
import Unitpm.Lib.Run
import Unitpm.SpecStore
import Unitpm.Process
import Unitpm.CronInterval
import Unitpm.Workers
import Unitpm.Manager
import Unitpm.ManagerLib
import Unitpm.Limits
import Unitpm.Scaling
import Unitpm.ScaleDown
import Unitpm.ScaleUp
import Unitpm.Children
import Unitpm.Reload
import Unitpm.Disabled
import Unitpm.Service
import Unitpm.ServerLoop
import Unitpm.RateLimit
import Unitpm.Dispatch
import Unitpm.Flush
import Unitpm.FlushAll
import Unitpm.LogStreams
import Unitpm.EnvFile
import Unitpm.Files
import Unitpm.StartProtocol
import Unitpm.Ordinals
import Unitpm.Apply
import Unitpm.Gate
import Unitpm.Credential
import Unitpm.Updater
import Unitpm.Lexer
import Unitpm.Selectors
import Unitpm.Resolution
import Unitpm.ShortIds
import Unitpm.StartArgs
import Unitpm.MemoryMax
import Unitpm.AuditLog
import Unitpm.Purge
import Unitpm.ConcurrentStop
import Unitpm.Exits
import Unitpm.Backoff
import Unitpm.Connection
import Unitpm.SpecCrash
import Unitpm.ProcTree
import Unitpm.SignalTree
import Unitpm.WatchIgnore
import Unitpm.CommandTokens
import Unitpm.AutoNames
import Unitpm.EnvDelivery
import Unitpm.LogLines
import Unitpm.LogTail
import Unitpm.Lib.Merge
import Unitpm.LogMerge
import Unitpm.LogMergeOrder
import Unitpm.Lib.PriorityQueue
import Unitpm.LogFollowMerge
import Unitpm.HumanDuration
import Unitpm.Lib.Gregorian
import Unitpm.CivilDates
import Unitpm.Rfc3339
import Unitpm.Rfc3339Shape
import Unitpm.CreatedAt
import Unitpm.Lib.StableSort
import Unitpm.ListSort
import Unitpm.UpdateCache
import Unitpm.WatchDiff
import Unitpm.ProcTotals
import Unitpm.DynamicArgv
import Unitpm.UpdateCleanup
import Unitpm.Expand
import Unitpm.Lib.PathBeneath
import Unitpm.Landlock
import Unitpm.ExecSandbox
import Unitpm.Lib.Pointwise
import Unitpm.Batch
import Unitpm.BatchRace
import Unitpm.RotatingLog
import Unitpm.ConcurrentServer
import Unitpm.WatchScan
import Unitpm.StartSpec
import Unitpm.StartSeparator
import Unitpm.ClientSession
import Unitpm.SessionTurns
