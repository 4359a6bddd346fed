import DurableQueue.Lib.Duration

/-! Identifiers, job specifications, job records, statistics and the caller-facing errors. -/

namespace DurableQueue

/-- Wall-clock milliseconds since the Unix epoch, an `i64`. -/
structure UnixMillis where
  asMillis : Int64
  deriving DecidableEq

structure JobId where
  uuid : BitVec 128
  deriving DecidableEq

structure LeaseId where
  epoch : UInt64
  deriving DecidableEq

structure QueueName where
  asStr : String
  deriving DecidableEq

inductive JobState
  | queued | running | retryWaiting | completed | dead | cancelled
  deriving DecidableEq

def JobState.isTerminal : JobState → Bool
  | .completed | .dead | .cancelled => true
  | _ => false

def maxPayloadSize : Nat := 1024 * 1024

structure JobSpec where
  payload : List UInt8
  maxAttempts : UInt32
  deriving DecidableEq

structure JobRecord where
  id : JobId
  queue : QueueName
  spec : JobSpec
  state : JobState
  attempts : UInt32
  createdAt : UnixMillis
  deriving DecidableEq

def JobRecord.new (id : JobId) (queue : QueueName) (spec : JobSpec)
    (createdAt : UnixMillis) : JobRecord where
  id := id
  queue := queue
  spec := spec
  state := .queued
  attempts := 0
  createdAt := createdAt

def JobRecord.isLive (job : JobRecord) : Bool := !job.state.isTerminal

structure QueueStats where
  submitted : Nat := 0
  queued : Nat := 0
  running : Nat := 0
  retrying : Nat := 0
  completed : Nat := 0
  dead : Nat := 0
  cancelled : Nat := 0
  deriving DecidableEq

structure StatsSnapshot where
  submitted : Nat
  queued : Nat
  running : Nat
  retrying : Nat
  completed : Nat
  dead : Nat
  cancelled : Nat
  retried : Nat
  staleOutcomes : Nat
  perQueue : List (String × QueueStats)
  deriving DecidableEq

inductive WalError
  | io (message : String)
  | storeLocked
  | invalidWalHeader
  | unsupportedWalVersion (version : UInt16)
  | unsupportedRecordVersion (version : UInt8)
  | recordTooLarge (size : Nat)
  | serialization (message : String)
  | checksumMismatch (expected computed : UInt32)
  | sequenceViolation (expected got : UInt64)
  | truncatedFrame
  | syncFailed
  | writerChannelClosed
  | recoveryQueueNotFound (queue : String)
  | recoveryCapacityExceeded (queue : String) (recovered capacity : Nat)
  | sequenceExhausted
  | leaseEpochExhausted
  deriving DecidableEq

abbrev WalResult := Except WalError

inductive Error
  | queueNotFound (queue : String)
  | queueFull (queue : String)
  | invalidConfiguration (message : String)
  | jobNotFound (id : JobId)
  | invalidTransition (src dst : JobState)
  | shuttingDown
  | payloadTooLarge (size max : Nat)
  | storage (error : WalError)
  deriving DecidableEq

end DurableQueue
