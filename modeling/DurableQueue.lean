import DurableQueue.Defs.Admission
import DurableQueue.Defs.Attempts
import DurableQueue.Defs.Backoff
import DurableQueue.Defs.Board
import DurableQueue.Defs.Client
import DurableQueue.Defs.ClientLaws
import DurableQueue.Defs.ClientPermits
import DurableQueue.Defs.Config
import DurableQueue.Defs.Continuity
import DurableQueue.Defs.Coordinator.Acts
import DurableQueue.Defs.Coordinator.Effects
import DurableQueue.Defs.Coordinator.Leases
import DurableQueue.Defs.Coordinator.Logged
import DurableQueue.Defs.Coordinator.Ops
import DurableQueue.Defs.Coordinator.OpsLaws
import DurableQueue.Defs.Coordinator.Permits
import DurableQueue.Defs.Coordinator.Placement
import DurableQueue.Defs.Coordinator.State
import DurableQueue.Defs.Coordinator.Steps
import DurableQueue.Defs.Coordinator.Tallies
import DurableQueue.Defs.Counters
import DurableQueue.Defs.CrashPoints
import DurableQueue.Defs.Custody
import DurableQueue.Defs.Dispatch
import DurableQueue.Defs.DueRetries
import DurableQueue.Defs.Endings
import DurableQueue.Defs.Fifo
import DurableQueue.Defs.Graceful
import DurableQueue.Defs.Handing
import DurableQueue.Defs.Linearizable
import DurableQueue.Defs.Loop
import DurableQueue.Defs.PersistFailure
import DurableQueue.Defs.Protocol
import DurableQueue.Defs.Quiescence
import DurableQueue.Defs.RecoverLog
import DurableQueue.Defs.Recovered
import DurableQueue.Defs.Recovery
import DurableQueue.Defs.RecoveryLaws
import DurableQueue.Defs.Refinement
import DurableQueue.Defs.Rejected
import DurableQueue.Defs.Replies
import DurableQueue.Defs.Restart
import DurableQueue.Defs.RetryTimes
import DurableQueue.Defs.RoundRobin
import DurableQueue.Defs.Runtime
import DurableQueue.Defs.RuntimeLaws
import DurableQueue.Defs.Shutdown
import DurableQueue.Defs.StartLaws
import DurableQueue.Defs.Store
import DurableQueue.Defs.StoreLaws
import DurableQueue.Defs.System
import DurableQueue.Defs.SystemLaws
import DurableQueue.Defs.Terminal
import DurableQueue.Defs.Timeouts
import DurableQueue.Defs.Types
import DurableQueue.Defs.Wal.Access
import DurableQueue.Defs.Wal.Codec
import DurableQueue.Defs.Wal.CodecLaws
import DurableQueue.Defs.Wal.Corruption
import DurableQueue.Defs.Wal.Format
import DurableQueue.Defs.Wal.Postcard
import DurableQueue.Defs.Wal.Reading
import DurableQueue.Defs.Wal.Record
import DurableQueue.Defs.Wal.Reopen
import DurableQueue.Defs.Wal.Scanner
import DurableQueue.Defs.Wal.ScannerLaws
import DurableQueue.Defs.Wal.Writer
import DurableQueue.Defs.Wal.WriterLaws
import DurableQueue.Defs.Worker
import DurableQueue.Lib.Board
import DurableQueue.Lib.Bytes
import DurableQueue.Lib.Capped
import DurableQueue.Lib.Duration
import DurableQueue.Lib.Exec
import DurableQueue.Lib.HashMap
import DurableQueue.Lib.Order
import DurableQueue.Lib.Rotation
import DurableQueue.Lib.Slots
import DurableQueue.Lib.Trace
import DurableQueue.Lib.Wire
import DurableQueue.Lib.Word
