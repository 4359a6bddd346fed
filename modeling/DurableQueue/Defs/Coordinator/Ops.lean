import DurableQueue.Defs.Coordinator.State

/-! The coordinator's operations.  Every operation that logs a record follows one order:
build the record, persist it, apply it to the store, then expose its effects. -/

namespace DurableQueue

namespace Coordinator

/-! ## Effects exposed after a record has been applied -/

def exposeSubmit (id : JobId) (queue : QueueName) (permit : OwnedSemaphorePermit)
    (s : Coordinator) : Coordinator :=
  let s := s.insertPermit id permit
  let s := s.updateQueue queue.asStr fun qs =>
    { ready := qs.ready ++ [id]
      stats := { qs.stats with
        submitted := qs.stats.submitted + 1
        queued := qs.stats.queued + 1 } }
  { s with globalStats := { s.globalStats with submitted := s.globalStats.submitted + 1 } }

/-- The effect of a cancellation on the job's queue, by the state the job was in. -/
def cancelQueue (id : JobId) (fromState : JobState) (qs : QueueState) : QueueState :=
  let qs : QueueState := match fromState with
    | .queued =>
      { ready := qs.ready.filter (· ≠ id)
        stats := { qs.stats with queued := qs.stats.queued - 1 } }
    | .running => { qs with stats := { qs.stats with running := qs.stats.running - 1 } }
    | .retryWaiting => { qs with stats := { qs.stats with retrying := qs.stats.retrying - 1 } }
    | _ => qs
  { qs with stats := { qs.stats with cancelled := qs.stats.cancelled + 1 } }

/-- The lease of a running job is only looked at when the job's queue is configured. -/
def exposeCancel (id : JobId) (queue : String) (fromState : JobState) (s : Coordinator) :
    Coordinator :=
  let s := if fromState = .running ∧ (s.queues.get queue).isSome then s.cancelLease id else s
  let s := s.updateQueue queue (cancelQueue id fromState)
  let s := s.removePermit id
  { s with globalStats := { s.globalStats with cancelled := s.globalStats.cancelled + 1 } }

def popReady (queue : String) (s : Coordinator) : Coordinator :=
  s.updateQueue queue fun qs => { qs with ready := qs.ready.tail }

def exposeLease (id : JobId) (queue : String) (lease : ActiveLease) (s : Coordinator) :
    Coordinator :=
  let s := { s with nextLeaseEpoch := s.nextLeaseEpoch + 1, leases := s.leases.insert id lease }
  s.updateStats queue fun st => { st with queued := st.queued - 1, running := st.running + 1 }

/-- The effects shared by completion and death: count the job, give its capacity back. -/
def exposeFinish (id : JobId) (queue : String) (count : QueueStats → QueueStats)
    (countGlobal : GlobalStats → GlobalStats) (s : Coordinator) : Coordinator :=
  let s := s.updateStats queue fun st => count { st with running := st.running - 1 }
  let s := s.removePermit id
  { s with globalStats := countGlobal s.globalStats }

def exposeRetry (queue : String) (entry : RetryEntry) (s : Coordinator) : Coordinator :=
  let s := s.updateStats queue fun st =>
    { st with running := st.running - 1, retrying := st.retrying + 1 }
  { s with
    retryQueue := entry :: s.retryQueue
    globalStats := { s.globalStats with retried := s.globalStats.retried + 1 } }

def requeue (id : JobId) (queue : String) (s : Coordinator) : Coordinator :=
  s.updateQueue queue fun qs =>
    { ready := qs.ready ++ [id]
      stats := { qs.stats with
        retrying := qs.stats.retrying - 1
        queued := qs.stats.queued + 1 } }

/-! ## Drawing from the surroundings -/

def draw {α : Type} (source : Nat → α) : CoordM α :=
  modifyGet fun s => (source s.tick, { s with tick := s.tick + 1 })

variable (X : Crates) (config : RuntimeConfig) (env : Env)

/-- `Instant::now() + d`.  The state of a task that panics is dropped, so that nothing is
kept of an operation that ends here but what it has logged. -/
def nowPlus (d : Duration) : CoordM Instant := do
  match (← draw env.instant).checkedAdd d with
  | some deadline => return deadline
  | none => throw .panic

/-- `storage.persist`.  Only an append to a file can be cut short by the end of the process. -/
def persist (record : WalRecord) : CoordM (WalResult (Option UInt64)) := fun s =>
  match env.fate s.tick, s.storage with
  | .crash written, .wal writer => .error (.append record (writer.interrupted X record written)) s
  | fate, storage =>
    match storage.persist X record fate.fault with
    | (.ok seq, storage') => .ok (.ok seq)
        { s with
          storage := storage'
          journal := s.journal ++ [.acked record]
          tick := s.tick + 1 }
    | (.error e, storage') => .ok (.error e)
        { s with
          storage := storage'
          journal := s.journal ++ [.failed record e]
          tick := s.tick + 1 }

/-- `store.apply_record`, called on a record that has just been persisted. -/
def applyRecord (record : WalRecord) : CoordM (Except Error Unit) := fun s =>
  match s.store.applyRecord record with
  | .ok store => .ok (.ok ()) { s with store := store }
  | .error e => .ok (.error e) { s with journal := s.journal ++ [.diverged record] }

/-! ## Leasing -/

/-- One round of the loop of `try_lease_job`, on the queue the cursor points to.  `none`
means that the loop goes on to the next queue. -/
def leaseFront (queueName : String) : CoordM (Option (Option LeasedJob)) := do
  let s ← get
  match s.queues.get queueName with
  | none => return none
  | some qs =>
    match qs.ready.head? with
    | none => return none
    | some jobId =>
      match s.store.get jobId with
      | none => return none
      | some job =>
        if job.state ≠ .queued then return none
        else
          let attempt := job.attempts + 1
          let leaseId : LeaseId := ⟨s.nextLeaseEpoch⟩
          let leasedAt ← draw env.wall
          let record := .jobLeased jobId leaseId attempt leasedAt
          match ← persist X env record with
          | .error _ => return none
          | .ok _ =>
            modify (popReady queueName)
            match ← applyRecord record with
            | .error _ => return none
            | .ok () =>
              let deadline ← nowPlus env config.visibilityTimeout
              modify (exposeLease jobId queueName ⟨leaseId, deadline⟩)
              match (← get).store.get jobId with
              | none => return some none
              | some job =>
                let context : JobContext :=
                  { id := job.id
                    queue := job.queue
                    payload := job.spec.payload
                    attempt := job.attempts
                    maxAttempts := job.spec.maxAttempts
                    cancellation := leaseId }
                return some (some ⟨context, leaseId⟩)

/-- The loop of `try_lease_job`: `rounds` of its `n` rounds are left.  The cursor always
stands inside `queue_order`. -/
def tryLeaseLoop (n : Nat) : Nat → CoordM (Option LeasedJob)
  | 0 => return none
  | rounds + 1 => do
    let s ← get
    let queueName := s.queueOrder.getD s.nextQueueIdx ""
    set { s with nextQueueIdx := (s.nextQueueIdx + 1) % n }
    match ← leaseFront X config env queueName with
    | some result => return result
    | none => tryLeaseLoop n rounds

def tryLeaseJob : CoordM (Option LeasedJob) := do
  let n := (← get).queueOrder.length
  tryLeaseLoop X config env n n

/-- The loop of `try_dispatch_parked_workers`; every round but the last unparks a worker,
so there are no more rounds than parked workers. -/
def dispatchLoop : Nat → CoordM Unit
  | 0 => return ()
  | rounds + 1 => do
    if (← get).parkedWorkers.isEmpty then return ()
    else
      match ← tryLeaseJob X config env with
      | none => return ()
      | some job =>
        match (← get).parkedWorkers with
        | [] => dispatchLoop rounds
        | worker :: rest =>
          modify fun s => send worker (.work (some job)) { s with parkedWorkers := rest }
          dispatchLoop rounds

def tryDispatchParkedWorkers : CoordM Unit := do
  if (← get).shuttingDown then return ()
  else dispatchLoop X config env (← get).parkedWorkers.length

def doFetchWork (reply : Sender) : CoordM Unit := do
  if (← get).shuttingDown then modify (send reply (.work none))
  else
    match ← tryLeaseJob X config env with
    | some job => modify (send reply (.work (some job)))
    | none => modify fun s => { s with parkedWorkers := s.parkedWorkers ++ [reply] }

/-! ## Submission, status, cancellation, statistics -/

def doSubmit (queue : QueueName) (spec : JobSpec) (permit : OwnedSemaphorePermit) :
    CoordM (Except Error JobRecord) := do
  if ((← get).queues.get queue.asStr).isNone then
    return .error (.queueNotFound queue.asStr)
  else if spec.payload.length > maxPayloadSize then
    return .error (.payloadTooLarge spec.payload.length maxPayloadSize)
  else
    let id ← draw env.uuid
    let createdAt ← draw env.wall
    let record := .jobSubmitted id queue spec createdAt
    match ← persist X env record with
    | .error e => return .error (.storage e)
    | .ok _ =>
      match ← applyRecord record with
      | .error e => return .error e
      | .ok () =>
        -- `unwrap`: the job has just been inserted
        let job := ((← get).store.get id).getD (JobRecord.new id queue spec createdAt)
        modify (exposeSubmit id queue permit)
        tryDispatchParkedWorkers X config env
        return .ok job

def doStatus (id : JobId) : CoordM (Except Error JobRecord) := do
  match (← get).store.get id with
  | some job => return .ok job
  | none => return .error (.jobNotFound id)

def doCancel (id : JobId) : CoordM (Except Error JobRecord) := do
  match (← get).store.get id with
  | none => return .error (.jobNotFound id)
  | some job =>
    if job.state.isTerminal then return .error (.invalidTransition job.state .cancelled)
    else
      let cancelledAt ← draw env.wall
      let record := .jobCancelled id cancelledAt
      match ← persist X env record with
      | .error e => return .error (.storage e)
      | .ok _ =>
        match ← applyRecord record with
        | .error e => return .error e
        | .ok () =>
          -- `unwrap`: the job was there before the record was applied
          let cancelled := ((← get).store.get id).getD job
          modify (exposeCancel id job.queue.asStr job.state)
          return .ok cancelled

def doStats (s : Coordinator) : StatsSnapshot :=
  let perQueue := s.queues.toList.map fun (name, qs) => (name, qs.stats)
  let total (field : QueueStats → Nat) := (perQueue.map fun (_, st) => field st).sum
  { submitted := s.globalStats.submitted
    queued := total (·.queued)
    running := total (·.running)
    retrying := total (·.retrying)
    completed := total (·.completed)
    dead := total (·.dead)
    cancelled := total (·.cancelled)
    retried := s.globalStats.retried
    staleOutcomes := s.globalStats.staleOutcomes
    perQueue := perQueue }

/-! ## Outcomes, retries, timeouts -/

/-- The common body of `complete_job` and `dead_job`. -/
def finishJob (id : JobId) (queueName : QueueName) (record : UnixMillis → WalRecord)
    (count : QueueStats → QueueStats) (countGlobal : GlobalStats → GlobalStats) :
    CoordM Unit := do
  let now ← draw env.wall
  match ← persist X env (record now) with
  | .error _ => return ()
  | .ok _ =>
    match ← applyRecord (record now) with
    | .error _ => return ()
    | .ok () => modify (exposeFinish id queueName.asStr count countGlobal)

def completeJob (id : JobId) (leaseId : LeaseId) (queueName : QueueName) : CoordM Unit :=
  finishJob X env id queueName (.jobCompleted id leaseId)
    (fun st => { st with completed := st.completed + 1 })
    (fun g => { g with completed := g.completed + 1 })

def deadJob (id : JobId) (leaseId : LeaseId) (queueName : QueueName) : CoordM Unit :=
  finishJob X env id queueName (.jobDead id leaseId)
    (fun st => { st with dead := st.dead + 1 })
    (fun g => { g with dead := g.dead + 1 })

def scheduleRetry (id : JobId) (leaseId : LeaseId) (queueName : QueueName)
    (attempt : UInt32) : CoordM Unit := do
  let delay := config.retry.delayWithRng attempt (← draw env.rng)
  let now ← draw env.wall
  -- `as i64` and the addition are those of a release build: they wrap
  let wallClockAvailableAt : UnixMillis := ⟨now.asMillis + Int64.ofNat delay.asMillis⟩
  let record := .jobRetryScheduled id leaseId attempt wallClockAvailableAt
  match ← persist X env record with
  | .error _ => return ()
  | .ok _ =>
    match ← applyRecord record with
    | .error _ => return ()
    | .ok () =>
      let availableAt ← nowPlus env delay
      modify (exposeRetry queueName.asStr ⟨availableAt, wallClockAvailableAt, id⟩)

/-- A job whose lease is over goes to `Dead` or to another attempt. -/
def retryOrDie (id : JobId) (leaseId : LeaseId) (job : JobRecord) : CoordM Unit :=
  if job.attempts ≥ job.spec.maxAttempts then deadJob X env id leaseId job.queue
  else scheduleRetry X config env id leaseId job.queue job.attempts

def staleOutcome (s : Coordinator) : Coordinator :=
  { s with globalStats := { s.globalStats with staleOutcomes := s.globalStats.staleOutcomes + 1 } }

def doWorkerOutcome (id : JobId) (leaseId : LeaseId) (outcome : WorkerOutcome) :
    CoordM Unit := do
  match (← get).leases.get id with
  | none => modify staleOutcome
  | some lease =>
    if lease.leaseId ≠ leaseId then modify staleOutcome
    else
      modify (removeLease id)
      match (← get).store.get id with
      | none => return ()
      | some job =>
        match outcome with
        | .success => completeJob X env id leaseId job.queue
        | .fatal => deadJob X env id leaseId job.queue
        | .retryable | .panic => retryOrDie X config env id leaseId job

/-- One round of the loop of `process_due_retries`, on the entry at the top of the heap. -/
def popDueRetry (entry : RetryEntry) (s : Coordinator) : Coordinator :=
  let s := { s with retryQueue := s.retryQueue.erase entry }
  match s.store.get entry.jobId with
  | none => s
  | some job =>
    if job.state ≠ .retryWaiting then s
    else
      match s.store.transitionToQueued entry.jobId with
      | .error _ => s
      | .ok store => { s with store := store }.requeue entry.jobId job.queue.asStr

/-- The loop of `process_due_retries`; there are no more rounds than entries in the heap. -/
def dueRetriesLoop (now : Instant) : Nat → CoordM Unit
  | 0 => return ()
  | rounds + 1 => do
    -- entries with the same deadline leave the heap in any order
    let order ← draw env.order
    match (order.arrange (← get).retryQueue).argmin (·.availableAt.nanos) with
    | none => return ()
    | some entry =>
      if entry.availableAt.nanos > now.nanos then return ()
      else
        modify (popDueRetry entry)
        dueRetriesLoop now rounds

def processDueRetries : CoordM Unit := do
  let now ← draw env.instant
  dueRetriesLoop env now (← get).retryQueue.length

/-- One round of the loop of `check_lease_timeouts`. -/
def expireLease (jobId : JobId) (leaseId : LeaseId) : CoordM Unit := do
  if ((← get).leases.get jobId).isNone then return ()
  else
    modify (cancelLease jobId)
    match (← get).store.get jobId with
    | none => return ()
    | some job => retryOrDie X config env jobId leaseId job

def expireLeases : List (JobId × LeaseId) → CoordM Unit
  | [] => return ()
  | (jobId, leaseId) :: rest => do
    expireLease X config env jobId leaseId
    expireLeases rest

def checkLeaseTimeouts : CoordM Unit := do
  let now ← draw env.instant
  let order ← draw env.order
  let timedOut := (order.arrange (← get).leases.toList).filter
    fun (_, lease) => lease.deadline.nanos ≤ now.nanos
  expireLeases X config env (timedOut.map fun (jobId, lease) => (jobId, lease.leaseId))

/-! ## Shutdown and the loop -/

def startShutdown (reply : Sender) : CoordM Unit := do
  if (← get).shuttingDown then modify (send reply .done)
  else
    modify fun s => { s with shuttingDown := true, shutdownToken := true }.closeSemaphores
    modify fun s =>
      { s with
        parkedWorkers := []
        sent := s.sent ++ s.parkedWorkers.map (fun worker => (worker, .work none)) }
    if (← get).leases.keys.isEmpty then modify (send reply .done)
    else
      let deadline ← nowPlus env config.shutdownTimeout
      modify fun s => { s with shutdownDeadline := some deadline, shutdownReply := some reply }

def completeShutdown (s : Coordinator) : Coordinator :=
  { s with
    shutdownReply := none
    sent := match s.shutdownReply with
      | some reply => s.sent ++ [(reply, .done)]
      | none => s.sent }

def forceShutdown (s : Coordinator) : Coordinator :=
  (s.leases.keys.foldl (fun s id => s.cancelLease id) s).completeShutdown

/-- Leaving the loop closes the semaphores. -/
def exit (s : Coordinator) : Coordinator := { s.closeSemaphores with exited := true }

/-- The two ways out of the loop that are tested in each round. -/
def checkExit : CoordM Unit := do
  let s ← get
  if s.shuttingDown && s.leases.keys.isEmpty then set s.completeShutdown.exit
  else
    match s.shutdownDeadline with
    | none => return ()
    | some deadline =>
      let now ← draw env.instant
      if now.nanos ≥ deadline.nanos then modify fun s => s.forceShutdown.exit
      else return ()

/-- The answer to a submission, which is refused during a shutdown. -/
def submitResult (queue : QueueName) (spec : JobSpec) (permit : OwnedSemaphorePermit) :
    CoordM (Except Error JobRecord) := do
  if (← get).shuttingDown then return .error .shuttingDown
  else doSubmit X config env queue spec permit

/-- A command's permit is dropped with the command unless the submission keeps it. -/
def handle : Command → CoordM Unit
  | .submit queue spec permit reply => do
    let result ← submitResult X config env queue spec permit
    modify fun s => match result with
      | .ok _ => s
      | .error _ => s.returnPermit permit
    modify (send reply (.job result))
  | .status id reply => do
    let result ← doStatus id
    modify (send reply (.job result))
  | .cancel id reply => do
    let result ← doCancel X env id
    modify (send reply (.job result))
  | .stats reply => modify fun s => s.send reply (.stats s.doStats)
  | .fetchWork reply => doFetchWork X config env reply
  | .workerOutcome id leaseId outcome => doWorkerOutcome X config env id leaseId outcome
  | .shutdown reply => startShutdown config env reply

end Coordinator

end DurableQueue
