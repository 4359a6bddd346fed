import DurableQueue.Lib.Order
import DurableQueue.Defs.Config
import DurableQueue.Defs.Store

/-! Recovery: scan, repair, replay, reconciliation of the jobs a crash interrupted, and
validation against the configuration. -/

namespace DurableQueue

structure RecoveredState where
  store : MemoryStore
  queuedJobs : HashMap String (List JobId)
  retryJobs : List (JobId × UnixMillis)
  nextSequence : UInt64
  nextLeaseEpoch : UInt64
  submitted : Nat
  completed : Nat
  dead : Nat
  cancelled : Nat
  retried : Nat

structure RecoveryTracker where
  /-- queue and `max_attempts` of every submitted job -/
  submittedJobs : HashMap JobId (QueueName × UInt32)
  runningJobs : HashMap JobId (LeaseId × UInt32)
  retryWaiting : HashMap JobId UnixMillis
  /-- queued jobs in submission order, per queue -/
  queuedOrder : HashMap String (List JobId)
  maxLeaseEpoch : UInt64

namespace RecoveryTracker

def new : RecoveryTracker := ⟨.empty, .empty, .empty, .empty, 0⟩

def unqueue (t : RecoveryTracker) (id : JobId) : RecoveryTracker :=
  { t with
    queuedOrder := match t.submittedJobs.get id with
      | some (queue, _) => t.queuedOrder.modify queue.asStr (·.filter (· ≠ id))
      | none => t.queuedOrder }

def finish (t : RecoveryTracker) (id : JobId) : RecoveryTracker :=
  { t with
    runningJobs := t.runningJobs.erase id
    retryWaiting := t.retryWaiting.erase id }.unqueue id

def trackRecord (t : RecoveryTracker) : WalRecord → RecoveryTracker
  | .jobSubmitted id queue spec _ =>
    { t with
      submittedJobs := t.submittedJobs.insert id (queue, spec.maxAttempts)
      queuedOrder := t.queuedOrder.upsert queue.asStr [] (· ++ [id]) }
  | .jobLeased id leaseId attempt _ =>
    { t with
      maxLeaseEpoch := max t.maxLeaseEpoch leaseId.epoch
      runningJobs := t.runningJobs.insert id (leaseId, attempt)
      retryWaiting := t.retryWaiting.erase id }.unqueue id
  | .jobRetryScheduled id _ _ availableAt =>
    { t with
      runningJobs := t.runningJobs.erase id
      retryWaiting := t.retryWaiting.insert id availableAt }
  | .jobCompleted id _ _ => t.finish id
  | .jobDead id _ _ => t.finish id
  | .jobCancelled id _ => t.finish id

end RecoveryTracker

structure ReplayState where
  store : MemoryStore
  tracker : RecoveryTracker
  submitted : Nat
  completed : Nat
  dead : Nat
  cancelled : Nat
  retried : Nat

namespace ReplayState

def new : ReplayState := ⟨.empty, .new, 0, 0, 0, 0, 0⟩

def replayRecord (s : ReplayState) (record : WalRecord) : ReplayState where
  store := s.store.applyRecordForRecovery record
  tracker := s.tracker.trackRecord record
  submitted := if record.isSubmitted then s.submitted + 1 else s.submitted
  completed := if record.isCompleted then s.completed + 1 else s.completed
  dead := if record.isDead then s.dead + 1 else s.dead
  cancelled := if record.isCancelled then s.cancelled + 1 else s.cancelled
  retried := if record.isRetryScheduled then s.retried + 1 else s.retried

/-- One round of the second loop, over the reconciliation records; it counts retries and
dead jobs only. -/
def reconcileRecord (s : ReplayState) (record : WalRecord) : ReplayState :=
  { s with
    store := s.store.applyRecordForRecovery record
    tracker := s.tracker.trackRecord record
    retried := if record.isRetryScheduled then s.retried + 1 else s.retried
    dead := if record.isDead then s.dead + 1 else s.dead }

end ReplayState

structure RecoverEnv where
  now : UnixMillis
  order : Nat → IterOrder

def reconcileRunningJobs (env : RecoverEnv) (store : MemoryStore) (tracker : RecoveryTracker) :
    List WalRecord :=
  ((env.order 0).arrange tracker.runningJobs.toList).filterMap fun (jobId, leaseId, _) =>
    match store.get jobId with
    | none => none
    | some job =>
      if job.state ≠ .running then none
      else if job.attempts < job.spec.maxAttempts then
        some (.jobRetryScheduled jobId leaseId job.attempts env.now)
      else some (.jobDead jobId leaseId env.now)

/-- The queued lists, restricted to the jobs that are `Queued` in the store; a queue
without such jobs gets no entry. -/
def buildQueuedJobs (env : RecoverEnv) (store : MemoryStore) (tracker : RecoveryTracker) :
    HashMap String (List JobId) :=
  .ofList <| ((env.order 1).arrange tracker.queuedOrder.toList).filterMap
    fun (queue, jobIds) =>
      let valid := jobIds.filter fun id => (store.get id).any (·.state = .queued)
      if valid.isEmpty then none else some (queue, valid)

def buildRetryJobs (env : RecoverEnv) (store : MemoryStore) (tracker : RecoveryTracker) :
    List (JobId × UnixMillis) :=
  ((env.order 2).arrange tracker.retryWaiting.toList).filter fun (id, _) =>
    (store.get id).any (·.state = .retryWaiting)

def countLive (config : RuntimeConfig) : List (String × Nat) → HashMap String Nat →
    WalResult (HashMap String Nat)
  | [], live => .ok live
  | (queue, n) :: rest, live =>
    if (config.capacity queue).isNone then .error (.recoveryQueueNotFound queue)
    else countLive config rest (live.upsert queue 0 (· + n))

def checkCapacity (config : RuntimeConfig) : List (String × Nat) → WalResult Unit
  | [] => .ok ()
  | (queue, count) :: rest =>
    match config.capacity queue with
    | none => checkCapacity config rest
    | some capacity =>
      if count > capacity then .error (.recoveryCapacityExceeded queue count capacity)
      else checkCapacity config rest

def validateRecoveredState (env : RecoverEnv) (store : MemoryStore)
    (queuedJobs : HashMap String (List JobId)) (retryJobs : List (JobId × UnixMillis))
    (config : RuntimeConfig) : WalResult Unit := do
  let queued := ((env.order 3).arrange queuedJobs.toList).map
    fun (queue, jobIds) => (queue, jobIds.length)
  let live ← countLive config queued .empty
  let retrying := retryJobs.filterMap fun (id, _) =>
    (store.get id).map fun job => (job.queue.asStr, 1)
  let live ← countLive config retrying live
  checkCapacity config ((env.order 4).arrange live.toList)

/-- `u64::checked_add(1)`. -/
def checkedSucc (n : UInt64) : Option UInt64 :=
  if n.toNat + 1 = 2 ^ 64 then none else some (n + 1)

/-- Append the reconciliation frames; returns the next sequence number, and the file as it
is then. -/
def writeReconciliation (X : Crates) : List WalRecord → List UInt8 → UInt64 →
    WalResult UInt64 × List UInt8
  | [], file, seq => (.ok seq, file)
  | record :: records, file, seq =>
    match WalFrame.encode X ⟨seq, record⟩ with
    | .error e => (.error e, file)
    | .ok encoded =>
      if file.length + encoded.length > maxFileSize then (.error (.io "File too large"), file)
      else
        match checkedSucc seq with
        | none => (.error .sequenceExhausted, file ++ encoded)
        | some seq' => writeReconciliation X records (file ++ encoded) seq'

def finishRecovery (env : RecoverEnv) (config : RuntimeConfig) (replayed : ReplayState)
    (reconciliation : List WalRecord) (nextSequence nextLeaseEpoch : UInt64) :
    WalResult RecoveredState :=
  let s := reconciliation.foldl ReplayState.reconcileRecord replayed
  let queuedJobs := buildQueuedJobs env s.store s.tracker
  let retryJobs := buildRetryJobs env s.store s.tracker
  match validateRecoveredState env s.store queuedJobs retryJobs config with
  | .error e => .error e
  | .ok () => .ok
    { store := s.store
      queuedJobs := queuedJobs
      retryJobs := retryJobs
      nextSequence := nextSequence
      nextLeaseEpoch := nextLeaseEpoch
      submitted := s.submitted
      completed := s.completed
      dead := s.dead
      cancelled := s.cancelled
      retried := s.retried }

/-- Recover from the content of the log file (`none` when there is none); also returns the
content the file is left with. -/
def recover (X : Crates) (env : RecoverEnv) (config : RuntimeConfig)
    (walFile : Option (List UInt8)) : WalResult RecoveredState × List UInt8 :=
  match walFile with
  | none | some [] => (.ok ⟨.empty, .empty, [], 1, 1, 0, 0, 0, 0, 0⟩, WalHeader.new.encode)
  | some file =>
    match scanWal X file with
    | .error e => (.error e, file)
    | .ok scan =>
      let file :=
        if scan.hadTruncatedTail then repairTruncatedTail file scan.lastValidOffset else file
      let replayed := scan.records.foldl ReplayState.replayRecord .new
      match checkedSucc scan.lastSequence with
      | none => (.error .sequenceExhausted, file)
      | some nextSequence =>
        match checkedSucc replayed.tracker.maxLeaseEpoch with
        | none => (.error .leaseEpochExhausted, file)
        | some nextLeaseEpoch =>
          let reconciliation := reconcileRunningJobs env replayed.store replayed.tracker
          match writeReconciliation X reconciliation file nextSequence with
          | (.error e, file) => (.error e, file)
          | (.ok nextSequence, file) =>
            (finishRecovery env config replayed reconciliation nextSequence nextLeaseEpoch, file)

end DurableQueue
