import DurableQueue.Defs.Coordinator.Ops

/-! Starting the system: the coordinator built from a recovered state, the permits reserved
for recovered jobs, and the runs of one process. -/

namespace DurableQueue

structure BootEnv where
  recovery : RecoverEnv
  now : Instant
  wallNow : UnixMillis
  order : Nat → IterOrder

/-! ## Building the coordinator -/

namespace Coordinator

def pushRecovered (store : MemoryStore) (jobIds : List JobId) (qs : QueueState) : QueueState :=
  jobIds.foldl (fun qs id =>
    if (store.get id).any (·.state = .queued) then
      { ready := qs.ready ++ [id]
        stats := { qs.stats with queued := qs.stats.queued + 1 } }
    else qs) qs

def waitingJobs (recovered : RecoveredState) : List (JobRecord × JobId × UnixMillis) :=
  recovered.retryJobs.filterMap fun (id, availableAt) =>
    match recovered.store.get id with
    | none => none
    | some job => if job.state = .retryWaiting then some (job, id, availableAt) else none

/-- A recovered wall-clock time as a deadline of the monotonic clock; the subtraction is
that of a release build. -/
def recoveredDeadline (env : BootEnv) (availableAt : UnixMillis) : Instant :=
  let remainingMs := max (availableAt.asMillis - env.wallNow.asMillis) 0
  env.now.add (Duration.fromMillis remainingMs.toUInt64)

def countTerminal (job : JobRecord) (qs : QueueState) : QueueState :=
  match job.state with
  | .completed => { qs with stats := { qs.stats with completed := qs.stats.completed + 1 } }
  | .dead => { qs with stats := { qs.stats with dead := qs.stats.dead + 1 } }
  | .cancelled => { qs with stats := { qs.stats with cancelled := qs.stats.cancelled + 1 } }
  | _ => qs

def recoveredQueues (env : BootEnv) (recovered : RecoveredState)
    (queues : HashMap String QueueState) : HashMap String QueueState :=
  let queues := ((env.order 0).arrange recovered.queuedJobs.toList).foldl
    (fun queues (queue, jobIds) => queues.modify queue (pushRecovered recovered.store jobIds))
    queues
  let queues := (waitingJobs recovered).foldl
    (fun queues (job, _, _) => queues.modify job.queue.asStr fun qs =>
      { qs with stats := { qs.stats with retrying := qs.stats.retrying + 1 } })
    queues
  ((env.order 1).arrange recovered.store.values).foldl
    (fun queues job => queues.modify job.queue.asStr (countTerminal job)) queues

def newWithRecovery (env : BootEnv) (config : RuntimeConfig) (storage : Storage)
    (semaphores : HashMap String Semaphore) (recovered : Option RecoveredState) :
    Coordinator :=
  let queues := HashMap.ofList (config.queues.map fun qc => (qc.name.asStr, {}))
  let fresh : Coordinator :=
    { store := .empty
      storage := storage
      queues := queues
      queueOrder := config.queueNames
      nextQueueIdx := 0
      permits := .empty
      leases := .empty
      retryQueue := []
      parkedWorkers := []
      semaphores := semaphores
      inFlight := []
      nextLeaseEpoch := 1
      globalStats := {}
      shuttingDown := false
      shutdownDeadline := none
      shutdownReply := none
      shutdownToken := false
      cancelled := []
      sent := []
      exited := false
      journal := []
      tick := 0 }
  match recovered with
  | none => fresh
  | some rec =>
    { fresh with
      store := rec.store
      queues := recoveredQueues env rec queues
      retryQueue := (waitingJobs rec).map fun (_, id, availableAt) =>
        ⟨recoveredDeadline env availableAt, availableAt, id⟩
      nextLeaseEpoch := rec.nextLeaseEpoch
      globalStats :=
        { submitted := rec.submitted
          completed := rec.completed
          dead := rec.dead
          cancelled := rec.cancelled
          retried := rec.retried } }

end Coordinator

/-! ## Capacity -/

def newSemaphores (config : RuntimeConfig) : HashMap String Semaphore :=
  HashMap.ofList (config.queues.map fun qc => (qc.name.asStr, Semaphore.new qc.capacity))

def permitsNeeded (env : BootEnv) (recovered : RecoveredState) : HashMap String Nat :=
  let needed := ((env.order 2).arrange recovered.queuedJobs.toList).foldl
    (fun needed (queue, jobs) => needed.upsert queue 0 (· + jobs.length)) .empty
  recovered.retryJobs.foldl (fun needed (id, _) =>
    match recovered.store.get id with
    | none => needed
    | some job =>
      if job.state = .retryWaiting then needed.upsert job.queue.asStr 0 (· + 1) else needed) needed

def reserve (queue : String) (count : Nat) : Nat → Semaphore → Except Error Semaphore
  | 0, sem => .ok sem
  | n + 1, sem =>
    if sem.available = 0 ∨ sem.closed then
      .error (.storage (.recoveryCapacityExceeded queue count (sem.available + count)))
    else reserve queue count n { sem with available := sem.available - 1 }

def reserveAll : List (String × Nat) → HashMap String Semaphore →
    Except Error (HashMap String Semaphore)
  | [], semaphores => .ok semaphores
  | (queue, count) :: rest, semaphores =>
    match semaphores.get queue with
    | none => reserveAll rest semaphores
    | some sem =>
      match reserve queue count count sem with
      | .error e => .error e
      | .ok sem' => reserveAll rest (semaphores.insert queue sem')

def reservePermitsForRecovered (env : BootEnv) (semaphores : HashMap String Semaphore)
    (recovered : RecoveredState) : Except Error (HashMap String Semaphore) :=
  reserveAll ((env.order 3).arrange (permitsNeeded env recovered).toList) semaphores

/-! ## Starting -/

def startMemory (env : BootEnv) (config : RuntimeConfig) : Except Error Coordinator :=
  match config.validate with
  | .error e => .error e
  | .ok () => .ok (.newWithRecovery env config .memory (newSemaphores config) none)

/-- The start on a log file (`none` when there is none); also returns what the file holds
afterwards. -/
def startWal (X : Crates) (env : BootEnv) (config : RuntimeConfig)
    (walFile : Option (List UInt8)) : Except Error Coordinator × Option (List UInt8) :=
  match config.validate with
  | .error e => (.error e, walFile)
  | .ok () =>
    match recover X env.recovery config walFile with
    | (.error e, file) => (.error (.storage e), some file)
    | (.ok recovered, file) =>
      match reservePermitsForRecovered env (newSemaphores config) recovered with
      | .error e => (.error e, some file)
      | .ok semaphores =>
        (.ok (.newWithRecovery env config (.wal ⟨file, recovered.nextSequence⟩) semaphores
          (some recovered)), some file)

/-! ## The runs of one process -/

/-- What the loop of `run` does.  Each of its rounds processes the due retries, the expired
leases and the parked workers, tests for the end, and then waits for a command, a timer or
the closing of the command channel; runs allow these operations in any order. -/
inductive Op
  | processDueRetries
  | checkLeaseTimeouts
  | tryDispatchParkedWorkers
  | checkExit
  | handle (cmd : Command)
  | hangUp

namespace Coordinator

variable (X : Crates) (config : RuntimeConfig)

def exec (env : Env) : Op → CoordM Unit
  | .processDueRetries => processDueRetries env
  | .checkLeaseTimeouts => checkLeaseTimeouts X config env
  | .tryDispatchParkedWorkers => tryDispatchParkedWorkers X config env
  | .checkExit => checkExit env
  | .handle cmd => handle X config env cmd
  | .hangUp => modify exit

end Coordinator

def Op.Holds (s : Coordinator) : Op → Prop
  | .handle (.submit queue _ permit _) => permit ∈ s.inFlight ∧ permit.queue = queue.asStr
  | _ => True

/-- The process may perform the operation in these surroundings: persist calls fail only as
`P` allows, and the ids drawn for new jobs are not in use. -/
structure Op.Enabled (P : Fault → Prop) (env : Env) (op : Op) (s : Coordinator) : Prop where
  running : s.exited = false
  holds : op.Holds s
  fault : ∀ t, P (env.fate t).fault
  fresh : ∀ t, s.store.get (env.uuid t) = none

inductive ProcStep (X : Crates) (P : Fault → Prop) (config : RuntimeConfig) (s : Coordinator) :
    Coordinator → Prop
  | acquire {queue : String} {sem : Semaphore} (hsem : s.semaphores.get queue = some sem)
      (havail : 0 < sem.available) (hopen : sem.closed = false) :
      ProcStep X P config s (s.acquire queue)
  | abandon {permit : OwnedSemaphorePermit} (hpermit : permit ∈ s.inFlight) :
      ProcStep X P config s (s.returnPermit permit)
  | exec {op : Op} {env : Env} {s' : Coordinator} (henabled : op.Enabled P env s)
      (hrun : Coordinator.exec X config env op s = .ok () s') : ProcStep X P config s s'

end DurableQueue
