import DurableQueue.Lib.HashMap
import DurableQueue.Defs.Wal.Writer

/-! The in-memory job store, its strict and its relaxed application of log records, and
the storage backend. -/

namespace DurableQueue

/-- In-memory job store; the source wraps the map in a one-field struct. -/
abbrev MemoryStore := HashMap JobId JobRecord

namespace MemoryStore

def isValidTransition : JobState → JobState → Bool
  | .queued, .running => true
  | .queued, .cancelled => true
  | .running, .completed => true
  | .running, .retryWaiting => true
  | .running, .dead => true
  | .running, .cancelled => true
  | .retryWaiting, .queued => true
  | .retryWaiting, .dead => true
  | .retryWaiting, .cancelled => true
  | _, _ => false

/-- The arm shared by every record but a submission: look the job up, check the
transition to `dst`, write the job back. -/
def transition (store : MemoryStore) (id : JobId) (dst : JobState)
    (update : JobRecord → JobRecord) : Except Error MemoryStore :=
  match store.get id with
  | none => .error (.jobNotFound id)
  | some job =>
    if isValidTransition job.state dst then .ok (store.insert id (update job))
    else .error (.invalidTransition job.state dst)

/-- Apply a record to the in-memory state, refusing transitions that are not allowed. -/
def applyRecord (store : MemoryStore) : WalRecord → Except Error MemoryStore
  | .jobSubmitted id queue spec createdAt =>
    .ok (store.insert id (JobRecord.new id queue spec createdAt))
  | .jobLeased id _ attempt _ =>
    store.transition id .running (fun job => { job with state := .running, attempts := attempt })
  | .jobRetryScheduled id _ _ _ =>
    store.transition id .retryWaiting (fun job => { job with state := .retryWaiting })
  | .jobCompleted id _ _ =>
    store.transition id .completed (fun job => { job with state := .completed })
  | .jobDead id _ _ =>
    store.transition id .dead (fun job => { job with state := .dead })
  | .jobCancelled id _ =>
    store.transition id .cancelled (fun job => { job with state := .cancelled })

/-- The move of a due retry back to `Queued`, which no record logs. -/
def transitionToQueued (store : MemoryStore) (id : JobId) : Except Error MemoryStore :=
  store.transition id .queued (fun job => { job with state := .queued })

/-- Apply a record during recovery: any transition goes, unknown ids are skipped, and no
record is refused. -/
def applyRecordForRecovery (store : MemoryStore) : WalRecord → MemoryStore
  | .jobSubmitted id queue spec createdAt =>
    store.insert id (JobRecord.new id queue spec createdAt)
  | .jobLeased id _ attempt _ =>
    store.modify id (fun job => { job with state := .running, attempts := attempt })
  | .jobRetryScheduled id _ _ _ =>
    store.modify id (fun job => { job with state := .retryWaiting })
  | .jobCompleted id _ _ => store.modify id (fun job => { job with state := .completed })
  | .jobDead id _ _ => store.modify id (fun job => { job with state := .dead })
  | .jobCancelled id _ => store.modify id (fun job => { job with state := .cancelled })

def replay (store : MemoryStore) (records : List WalRecord) : MemoryStore :=
  records.foldl applyRecordForRecovery store

def liveIn (store : MemoryStore) (queue : String) : Nat :=
  store.count (fun job => job.isLive && job.queue.asStr = queue)

end MemoryStore

inductive Storage
  | memory
  | wal (writer : WriterThread)
  deriving DecidableEq

/-- Persist a record; the answer is its sequence number when the storage is durable. -/
def Storage.persist (X : Crates) (record : WalRecord) (fault : Fault) :
    Storage → WalResult (Option UInt64) × Storage
  | .memory => (.ok none, .memory)
  | .wal writer =>
    match writer.processWrite X record fault with
    | (.ok seq, writer') => (.ok (some seq), .wal writer')
    | (.error e, writer') => (.error e, .wal writer')

end DurableQueue
