import DurableQueue.Defs.Recovery

/-! The coordinator's state, the commands it receives, and what it draws from its
surroundings. -/

namespace DurableQueue

/-- One unit of a queue's capacity; dropping it gives the unit back. -/
structure OwnedSemaphorePermit where
  queue : String
  deriving DecidableEq

structure Semaphore where
  available : Nat
  closed : Bool
  deriving DecidableEq

/-- Above `usize::MAX >> 3` permits `Semaphore::new` panics, and no process starts.  The file is
then what a process leaves that is stopped at once. -/
def Semaphore.new (permits : Nat) : Semaphore := ⟨permits, false⟩

inductive WorkerOutcome
  | success | retryable | fatal | panic
  deriving DecidableEq

/-- What a handler is given.  A lease's cancellation token is named by its lease id. -/
structure JobContext where
  id : JobId
  queue : QueueName
  payload : List UInt8
  attempt : UInt32
  maxAttempts : UInt32
  cancellation : LeaseId
  deriving DecidableEq

structure LeasedJob where
  context : JobContext
  leaseId : LeaseId
  deriving DecidableEq

abbrev Sender := Nat

inductive Command
  | submit (queue : QueueName) (spec : JobSpec) (permit : OwnedSemaphorePermit) (reply : Sender)
  | status (id : JobId) (reply : Sender)
  | cancel (id : JobId) (reply : Sender)
  | stats (reply : Sender)
  | fetchWork (reply : Sender)
  | workerOutcome (id : JobId) (leaseId : LeaseId) (outcome : WorkerOutcome)
  | shutdown (reply : Sender)

inductive Reply
  | job (result : Except Error JobRecord)
  | stats (snapshot : StatsSnapshot)
  | work (job : Option LeasedJob)
  | done

structure RetryEntry where
  availableAt : Instant
  wallClockAvailableAt : UnixMillis
  jobId : JobId
  deriving DecidableEq

structure ActiveLease where
  leaseId : LeaseId
  deadline : Instant
  deriving DecidableEq

structure QueueState where
  ready : List JobId := []
  stats : QueueStats := {}
  deriving DecidableEq

structure GlobalStats where
  submitted : Nat := 0
  completed : Nat := 0
  dead : Nat := 0
  cancelled : Nat := 0
  retried : Nat := 0
  staleOutcomes : Nat := 0
  deriving DecidableEq

/-- What a run has done so far.  The program keeps no such list; properties of runs are
stated over it. -/
inductive Event
  /-- a persist call succeeded -/
  | acked (record : WalRecord)
  /-- a persist call returned an error -/
  | failed (record : WalRecord) (error : WalError)
  /-- the store refused a record that had been persisted -/
  | diverged (record : WalRecord)
  /-- a lease was taken out of the lease map -/
  | ended (leaseId : LeaseId)

namespace Event

def asAcked : Event → Option WalRecord
  | .acked record => some record
  | _ => none

def asFailed : Event → Option WalRecord
  | .failed record _ => some record
  | _ => none

def asNacked : Event → Option (WalRecord × WalError)
  | .failed record error => some (record, error)
  | _ => none

def asDiverged : Event → Option WalRecord
  | .diverged record => some record
  | _ => none

def asEnded : Event → Option LeaseId
  | .ended leaseId => some leaseId
  | _ => none

end Event

structure Coordinator where
  store : MemoryStore
  storage : Storage
  queues : HashMap String QueueState
  queueOrder : List String
  nextQueueIdx : Nat
  permits : HashMap JobId OwnedSemaphorePermit
  leases : HashMap JobId ActiveLease
  /-- the heap, as a list: the top is an entry with the least `availableAt` -/
  retryQueue : List RetryEntry
  parkedWorkers : List Sender
  semaphores : HashMap String Semaphore
  /-- permits of submissions that a client has in its hands or in the command channel -/
  inFlight : List OwnedSemaphorePermit
  nextLeaseEpoch : UInt64
  globalStats : GlobalStats
  shuttingDown : Bool
  shutdownDeadline : Option Instant
  shutdownReply : Option Sender
  /-- whether the shutdown token is cancelled -/
  shutdownToken : Bool
  /-- the lease tokens that have been cancelled -/
  cancelled : List LeaseId
  sent : List (Sender × Reply)
  /-- whether the loop of `run` has been left -/
  exited : Bool
  journal : List Event
  /-- how often the surroundings have been asked -/
  tick : Nat

/-- How a persist call ends: it returns, or the process dies `written` bytes into it. -/
inductive Fate
  | returns (fault : Fault)
  | crash (written : Nat)

def Fate.fault : Fate → Fault
  | .returns fault => fault
  | .crash _ => .none

/-- What an operation draws from its surroundings, indexed by the coordinator's tick. -/
structure Env where
  instant : Nat → Instant
  wall : Nat → UnixMillis
  uuid : Nat → JobId
  rng : Nat → Rng
  fate : Nat → Fate
  order : Nat → IterOrder

/-- How an operation is cut short: the process dies while `record` is being appended and
leaves `file` behind, or the coordinator's task panics. -/
inductive Crash
  | append (record : WalRecord) (file : List UInt8)
  | panic

/-- Operations of the coordinator: they change its state, or end with the process or the task. -/
abbrev CoordM := EStateM Crash Coordinator

namespace Coordinator

def release (permit : OwnedSemaphorePermit) (semaphores : HashMap String Semaphore) :
    HashMap String Semaphore :=
  semaphores.modify permit.queue (fun sem => { sem with available := sem.available + 1 })

/-- `permits.remove`: the permit, if there was one, is dropped. -/
def removePermit (id : JobId) (s : Coordinator) : Coordinator :=
  { s with
    permits := s.permits.erase id
    semaphores := match s.permits.get id with
      | some permit => release permit s.semaphores
      | none => s.semaphores }

/-- `permits.insert` with the permit of a submission; a permit that is replaced is dropped. -/
def insertPermit (id : JobId) (permit : OwnedSemaphorePermit) (s : Coordinator) : Coordinator :=
  { s.removePermit id with
    permits := s.permits.insert id permit
    inFlight := s.inFlight.erase permit }

def acquire (queue : String) (s : Coordinator) : Coordinator :=
  { s with
    semaphores := s.semaphores.modify queue
      (fun sem => { sem with available := sem.available - 1 })
    inFlight := ⟨queue⟩ :: s.inFlight }

def returnPermit (permit : OwnedSemaphorePermit) (s : Coordinator) : Coordinator :=
  { s with
    semaphores := release permit s.semaphores
    inFlight := s.inFlight.erase permit }

def removeLease (id : JobId) (s : Coordinator) : Coordinator :=
  { s with
    leases := s.leases.erase id
    journal := match s.leases.get id with
      | some lease => s.journal ++ [.ended lease.leaseId]
      | none => s.journal }

def cancelLease (id : JobId) (s : Coordinator) : Coordinator :=
  { s.removeLease id with
    cancelled := match s.leases.get id with
      | some lease => s.cancelled ++ [lease.leaseId]
      | none => s.cancelled }

def updateQueue (name : String) (f : QueueState → QueueState) (s : Coordinator) : Coordinator :=
  { s with queues := s.queues.modify name f }

def updateStats (name : String) (f : QueueStats → QueueStats) (s : Coordinator) : Coordinator :=
  s.updateQueue name (fun qs => { qs with stats := f qs.stats })

def send (reply : Sender) (msg : Reply) (s : Coordinator) : Coordinator :=
  { s with sent := s.sent ++ [(reply, msg)] }

def closeSemaphores (s : Coordinator) : Coordinator :=
  { s with semaphores := s.semaphores.mapValues (fun sem => { sem with closed := true }) }

end Coordinator

end DurableQueue
