import DurableQueue.Defs.RuntimeLaws

/-! The worker pool: the loops of the workers and the handlers they run, beside the
coordinator and the clients, all joined by the command channel and the shutdown token. -/

namespace DurableQueue

inductive JobError
  | retryable | fatal
  deriving DecidableEq

def JobError.isRetryable : JobError → Bool
  | .retryable => true
  | .fatal => false

inductive JoinError
  | panic | cancelled
  deriving DecidableEq

abbrev TaskResult := Except JoinError (Except JobError Unit)

def TaskResult.outcome : TaskResult → WorkerOutcome
  | .ok (.ok ()) => .success
  | .ok (.error e) => if e.isRetryable then .retryable else .fatal
  | .error _ => .panic

/-- The `select!` of `execute_with_cancellation`, polled with the state of the task (`none`
while the handler is at work) and of the shutdown token.  The task goes first; the second
arm aborts it. -/
def executeWithCancellation (task : Option TaskResult) (cancelled : Bool) :
    Option WorkerOutcome :=
  match task with
  | some result => some result.outcome
  | none => if cancelled then some .retryable else none

inductive Worker
  /-- at the top, before the token is looked at -/
  | top
  /-- in `fetch_work`, before the command is sent -/
  | asking
  /-- in `fetch_work`, waiting for the reply -/
  | waiting (reply : Sender)
  /-- in `execute_with_cancellation` -/
  | running (job : LeasedJob) (task : Option TaskResult)
  | reporting (job : LeasedJob) (outcome : WorkerOutcome)
  | stopped
  deriving DecidableEq

/-- What the workers of a run have done so far; like the journal, the program keeps no such
list. -/
inductive WorkerEvent
  /-- the handler under a lease ended by itself -/
  | finished (worker : Nat) (leaseId : LeaseId) (result : TaskResult)
  /-- its task was aborted before that -/
  | aborted (worker : Nat) (leaseId : LeaseId)
  /-- a `WorkerOutcome` was sent for the lease -/
  | reported (worker : Nat) (leaseId : LeaseId) (outcome : WorkerOutcome)
  deriving DecidableEq

structure Pool where
  coordinator : Coordinator
  channel : List Command
  workers : List Worker
  events : List WorkerEvent

def Command.reply? : Command → Option Sender
  | .submit _ _ _ reply | .status _ reply | .cancel _ reply | .stats reply | .fetchWork reply
  | .shutdown reply => some reply
  | .workerOutcome .. => none

def Command.fromWorker : Command → Bool
  | .fetchWork _ | .workerOutcome .. => true
  | _ => false

def Worker.reply? : Worker → Option Sender
  | .waiting reply => some reply
  | _ => none

namespace Pool

def start (config : RuntimeConfig) (s : Coordinator) : Pool :=
  ⟨s, [], List.replicate config.workerConcurrency .top, []⟩

def replies (p : Pool) : List Sender :=
  p.coordinator.sent.map Prod.fst ++ p.coordinator.parkedWorkers ++
    p.coordinator.shutdownReply.toList ++ p.channel.filterMap Command.reply? ++
    p.workers.filterMap Worker.reply?

def Accepts (config : RuntimeConfig) (p : Pool) : Prop :=
  p.coordinator.exited = false ∧ p.channel.length < config.channelCapacity

def moveTo (p : Pool) (k : Nat) (w : Worker) : Pool := { p with workers := p.workers.set k w }

def note (p : Pool) (e : WorkerEvent) : Pool := { p with events := p.events ++ [e] }

def push (p : Pool) (cmd : Command) : Pool := { p with channel := p.channel ++ [cmd] }

/-- The coordinator may turn to the operation.  Commands come from the channel, in order;
the channel is closed when no sender is left.  With `late` unset, a test for the end does
not find the shutdown deadline passed. -/
def Turn (late : Bool) (env : Env) (p : Pool) : Op → Prop
  | .handle cmd => p.channel.head? = some cmd
  | .hangUp => p.channel = [] ∧ ∀ w ∈ p.workers, w = .stopped
  | .checkExit => late = false → ∀ deadline, p.coordinator.shutdownDeadline = some deadline →
      (env.instant p.coordinator.tick).nanos < deadline.nanos
  | .processDueRetries | .checkLeaseTimeouts | .tryDispatchParkedWorkers => True

def rest (p : Pool) : Op → List Command
  | .handle _ => p.channel.tail
  | _ => p.channel

end Pool

open Pool in
inductive PoolStep (X : Crates) (P : Fault → Prop) (config : RuntimeConfig) (late : Bool)
    (p : Pool) : Pool → Prop
  | acquire {queue : String} {sem : Semaphore}
      (hsem : p.coordinator.semaphores.get queue = some sem) (havail : 0 < sem.available)
      (hopen : sem.closed = false) :
      PoolStep X P config late p { p with coordinator := p.coordinator.acquire queue }
  | abandon {permit : OwnedSemaphorePermit} (hpermit : permit ∈ p.coordinator.inFlight) :
      PoolStep X P config late p { p with coordinator := p.coordinator.returnPermit permit }
  | client {cmd : Command} (hcmd : cmd.fromWorker = false) (hsend : p.Accepts config) :
      PoolStep X P config late p (p.push cmd)
  | coordinator {op : Op} {env : Env} {s : Coordinator} (hturn : p.Turn late env op)
      (henabled : op.Enabled P env p.coordinator)
      (hexec : Coordinator.exec X config env op p.coordinator = .ok () s) :
      PoolStep X P config late p { p with coordinator := s, channel := p.rest op }
  -- the loop of a worker
  | check {k : Nat} (hw : p.workers[k]? = some .top) :
      PoolStep X P config late p
        (p.moveTo k (if p.coordinator.shutdownToken then .stopped else .asking))
  | ask {k : Nat} {reply : Sender} (hw : p.workers[k]? = some .asking)
      (hsend : p.Accepts config) (hnew : reply ∉ p.replies) :
      PoolStep X P config late p ((p.push (.fetchWork reply)).moveTo k (.waiting reply))
  | askFails {k : Nat} (hw : p.workers[k]? = some .asking)
      (hclosed : p.coordinator.exited = true) : PoolStep X P config late p (p.moveTo k .stopped)
  | fetched {k : Nat} {reply : Sender} {job : LeasedJob} (hw : p.workers[k]? = some (.waiting reply))
      (hreply : (reply, .work (some job)) ∈ p.coordinator.sent) :
      PoolStep X P config late p (p.moveTo k (.running job none))
  | refused {k : Nat} {reply : Sender} (hw : p.workers[k]? = some (.waiting reply))
      (hreply : (reply, .work none) ∈ p.coordinator.sent) :
      PoolStep X P config late p (p.moveTo k .stopped)
  -- no reply: the coordinator is gone, or the token is cancelled
  | givesUp {k : Nat} {reply : Sender} (hw : p.workers[k]? = some (.waiting reply))
      (hnone : ∀ msg, (reply, msg) ∉ p.coordinator.sent)
      (hover : p.coordinator.exited = true ∨ p.coordinator.shutdownToken = true) :
      PoolStep X P config late p (p.moveTo k .stopped)
  -- the handler's task; only its worker can cancel it
  | finish {k : Nat} {job : LeasedJob} {result : TaskResult}
      (hw : p.workers[k]? = some (.running job none)) (hresult : result ≠ .error .cancelled) :
      PoolStep X P config late p
        ((p.note (.finished k job.leaseId result)).moveTo k (.running job (some result)))
  | join {k : Nat} {job : LeasedJob} {result : TaskResult} {outcome : WorkerOutcome}
      (hw : p.workers[k]? = some (.running job (some result)))
      (hselect : executeWithCancellation (some result) p.coordinator.shutdownToken = some outcome) :
      PoolStep X P config late p (p.moveTo k (.reporting job outcome))
  | abort {k : Nat} {job : LeasedJob} {outcome : WorkerOutcome}
      (hw : p.workers[k]? = some (.running job none))
      (hselect : executeWithCancellation none p.coordinator.shutdownToken = some outcome) :
      PoolStep X P config late p
        ((p.note (.aborted k job.leaseId)).moveTo k (.reporting job outcome))
  | report {k : Nat} {job : LeasedJob} {outcome : WorkerOutcome}
      (hw : p.workers[k]? = some (.reporting job outcome)) (hsend : p.Accepts config) :
      PoolStep X P config late p
        (((p.push (.workerOutcome job.context.id job.leaseId outcome)).note
          (.reported k job.leaseId outcome)).moveTo k .top)
  | reportFails {k : Nat} {job : LeasedJob} {outcome : WorkerOutcome}
      (hw : p.workers[k]? = some (.reporting job outcome))
      (hclosed : p.coordinator.exited = true) : PoolStep X P config late p (p.moveTo k .top)

abbrev Pool.Run (X : Crates) (P : Fault → Prop) (config : RuntimeConfig) (late : Bool) :
    Pool → Pool → Prop := Relation.ReflTransGen (PoolStep X P config late)

end DurableQueue
