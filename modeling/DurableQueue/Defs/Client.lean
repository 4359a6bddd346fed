import DurableQueue.Defs.Worker

/-! The clients of a process: the calls that they make on a `Runtime` or on clones of a
`QueueHandle`, each with its permit and its reply channel. -/

namespace DurableQueue

/-- What a client may call.  Only a `Runtime` is shut down. -/
inductive Ask
  | submit (queue : QueueName) (spec : JobSpec)
  | trySubmit (queue : QueueName) (spec : JobSpec)
  | status (id : JobId)
  | cancel (id : JobId)
  | stats
  | shutdown
  deriving DecidableEq

namespace Ask

def queue? : Ask → Option QueueName
  | .submit queue _ | .trySubmit queue _ => some queue
  | .status _ | .cancel _ | .stats | .shutdown => none

def permit? (ask : Ask) : Option OwnedSemaphorePermit :=
  ask.queue?.map fun queue => ⟨queue.asStr⟩

def command : Ask → Sender → Command
  | .submit queue spec, reply | .trySubmit queue spec, reply =>
    .submit queue spec ⟨queue.asStr⟩ reply
  | .status id, reply => .status id reply
  | .cancel id, reply => .cancel id reply
  | .stats, reply => .stats reply
  | .shutdown, reply => .shutdown reply

end Ask

inductive Call
  | begun (ask : Ask)
  /-- in `acquire_owned` -/
  | acquiring (queue : QueueName) (spec : JobSpec)
  /-- in `cmd_tx.send`, with the permit in hand -/
  | sending (ask : Ask)
  /-- in `reply_rx` -/
  | awaiting (ask : Ask) (reply : Sender)
  /-- a shutdown that waits for the workers -/
  | joining
  /-- a shutdown that has dropped its sender and waits for the coordinator -/
  | leaving
  | answered (ask : Ask) (reply : Sender) (msg : Reply)
  | failed (ask : Ask) (e : Error)
  /-- a shutdown that has returned -/
  | done
  /-- the caller has given the call up -/
  | dropped

namespace Call

def permit? : Call → Option OwnedSemaphorePermit
  | .sending ask => ask.permit?
  | _ => none

def isOver : Call → Bool
  | .answered .. | .failed .. | .done | .dropped => true
  | .begun _ | .acquiring .. | .sending _ | .awaiting .. | .joining | .leaving => false

end Call

/-- How the clients reach the process: `start` gives a handle and starts no workers. -/
inductive Access
  | handle | runtime
  deriving DecidableEq

structure Service where
  pool : Pool
  calls : List Call
  access : Access
  /-- whether the runtime, or a clone of the handle, is still held -/
  held : Bool
  /-- whether `QueueHandle::shutdown` has been called -/
  shut : Bool

namespace Service

def start (access : Access) (config : RuntimeConfig) (s : Coordinator) : Service where
  pool := match access with
    | .handle => { Pool.start config s with workers := [] }
    | .runtime => Pool.start config s
  calls := []
  access := access
  held := true
  shut := false

/-- Nobody but a worker has a sender of the command channel: a call borrows it from the
runtime or the handle, a shutdown owns it until it has joined the workers. -/
def Unconnected (v : Service) : Prop :=
  v.held = false ∧ ∀ call ∈ v.calls, call.isOver = true ∨ call = .leaving

end Service

def Pool.withCoordinator (p : Pool) (s : Coordinator) : Pool := { p with coordinator := s }

def Call.giveBack (call : Call) (s : Coordinator) : Coordinator :=
  match call.permit? with
  | some permit => s.returnPermit permit
  | none => s

open Pool in
inductive CallStep (config : RuntimeConfig) (calls : List Call) (p : Pool) :
    Call → Pool → Call → Prop
  -- the semaphore of a submission
  | notFound {ask : Ask} {queue : QueueName} (hask : ask.queue? = some queue)
      (hnone : p.coordinator.semaphores.get queue.asStr = none) :
      CallStep config calls p (.begun ask) p (.failed ask (.queueNotFound queue.asStr))
  | enter {queue : QueueName} {spec : JobSpec} {sem : Semaphore}
      (hsem : p.coordinator.semaphores.get queue.asStr = some sem) :
      CallStep config calls p (.begun (.submit queue spec)) p (.acquiring queue spec)
  | acquire {queue : QueueName} {spec : JobSpec} {sem : Semaphore}
      (hsem : p.coordinator.semaphores.get queue.asStr = some sem)
      (havail : 0 < sem.available) (hopen : sem.closed = false) :
      CallStep config calls p (.acquiring queue spec)
        (p.withCoordinator (p.coordinator.acquire queue.asStr)) (.sending (.submit queue spec))
  | closed {queue : QueueName} {spec : JobSpec} {sem : Semaphore}
      (hsem : p.coordinator.semaphores.get queue.asStr = some sem) (hclosed : sem.closed = true) :
      CallStep config calls p (.acquiring queue spec) p
        (.failed (.submit queue spec) .shuttingDown)
  | tryAcquire {queue : QueueName} {spec : JobSpec} {sem : Semaphore}
      (hsem : p.coordinator.semaphores.get queue.asStr = some sem)
      (havail : 0 < sem.available) (hopen : sem.closed = false) :
      CallStep config calls p (.begun (.trySubmit queue spec))
        (p.withCoordinator (p.coordinator.acquire queue.asStr)) (.sending (.trySubmit queue spec))
  -- a closed semaphore and one without a permit give the same error; a permit that comes
  -- back is kept for the callers that wait in `acquire_owned`
  | full {queue : QueueName} {spec : JobSpec} {sem : Semaphore}
      (hsem : p.coordinator.semaphores.get queue.asStr = some sem)
      (hfull : sem.closed = true ∨ sem.available = 0 ∨
        ∃ waiting, .acquiring queue waiting ∈ calls) :
      CallStep config calls p (.begun (.trySubmit queue spec)) p
        (.failed (.trySubmit queue spec) (.queueFull queue.asStr))
  | proceed {ask : Ask} (hask : ask.queue? = none) :
      CallStep config calls p (.begun ask) p (.sending ask)
  -- the command and its reply
  | send {ask : Ask} {reply : Sender} (hsend : p.Accepts config) (hnew : reply ∉ p.replies) :
      CallStep config calls p (.sending ask) (p.push (ask.command reply)) (.awaiting ask reply)
  | sendFails {ask : Ask} (hask : ask ≠ .shutdown) (hgone : p.coordinator.exited = true) :
      CallStep config calls p (.sending ask)
        (p.withCoordinator ((Call.sending ask).giveBack p.coordinator)) (.failed ask .shuttingDown)
  | replied {ask : Ask} {reply : Sender} {msg : Reply} (hask : ask ≠ .shutdown)
      (hreply : (reply, msg) ∈ p.coordinator.sent) :
      CallStep config calls p (.awaiting ask reply) p (.answered ask reply msg)
  | lost {ask : Ask} {reply : Sender} (hask : ask ≠ .shutdown)
      (hnone : ∀ msg, (reply, msg) ∉ p.coordinator.sent) (hgone : p.coordinator.exited = true) :
      CallStep config calls p (.awaiting ask reply) p (.failed ask .shuttingDown)
  -- a shutdown goes on whether it is answered or not
  | shutdownUnsent (hgone : p.coordinator.exited = true) :
      CallStep config calls p (.sending .shutdown) p .joining
  | shutdownReplied {reply : Sender}
      (hreply : (∃ msg, (reply, msg) ∈ p.coordinator.sent) ∨ p.coordinator.exited = true) :
      CallStep config calls p (.awaiting .shutdown reply) p .joining
  | joined (hworkers : ∀ w ∈ p.workers, w = .stopped) : CallStep config calls p .joining p .leaving
  | left (hgone : p.coordinator.exited = true) : CallStep config calls p .leaving p .done
  -- the future of a call is dropped
  | drop {call : Call} (hover : call.isOver = false) :
      CallStep config calls p call (p.withCoordinator (call.giveBack p.coordinator)) .dropped

/-- One step of a process with its clients, whoever takes it.  There is none after the coordinator
has panicked or has been killed. -/
inductive ServiceStep (X : Crates) (P : Fault → Prop) (config : RuntimeConfig) (late : Bool)
    (v : Service) : Service → Prop
  | call {ask : Ask} (hask : ask ≠ .shutdown) (hheld : v.held = true) :
      ServiceStep X P config late v { v with calls := v.calls ++ [.begun ask] }
  -- `Runtime::shutdown` takes the runtime by value, so that no other call borrows it
  | shutdown (haccess : v.access = .runtime) (hheld : v.held = true)
      (hover : ∀ call ∈ v.calls, call.isOver = true) :
      ServiceStep X P config late v
        { v with calls := v.calls ++ [.begun .shutdown], held := false }
  | letGo (hheld : v.held = true) (hover : ∀ call ∈ v.calls, call.isOver = true) :
      ServiceStep X P config late v { v with held := false }
  -- `QueueHandle::shutdown`
  | close (haccess : v.access = .handle) (hheld : v.held = true) :
      ServiceStep X P config late v { v with
        pool := v.pool.withCoordinator v.pool.coordinator.closeSemaphores
        shut := true }
  | move {k : Nat} {call call' : Call} {p : Pool} (hcall : v.calls[k]? = some call)
      (hstep : CallStep config v.calls v.pool call p call') :
      ServiceStep X P config late v { v with pool := p, calls := v.calls.set k call' }
  -- the receiver finds the channel closed only when no sender is left
  | coordinator {op : Op} {env : Env} {s : Coordinator} (hturn : v.pool.Turn late env op)
      (hclosed : op = .hangUp → v.Unconnected) (hrunning : v.pool.coordinator.exited = false)
      (hfault : ∀ t, P (env.fate t).fault)
      (hfresh : ∀ t, v.pool.coordinator.store.get (env.uuid t) = none)
      (hexec : Coordinator.exec X config env op v.pool.coordinator = .ok () s) :
      ServiceStep X P config late v
        { v with pool := { v.pool with coordinator := s, channel := v.pool.rest op } }
  -- a worker, or the handler that it runs
  | worker {p : Pool} (hstep : PoolStep X P config late v.pool p)
      (hmoved : p.workers ≠ v.pool.workers) : ServiceStep X P config late v { v with pool := p }

abbrev Service.Run (X : Crates) (P : Fault → Prop) (config : RuntimeConfig) (late : Bool) :
    Service → Service → Prop := Relation.ReflTransGen (ServiceStep X P config late)

end DurableQueue
