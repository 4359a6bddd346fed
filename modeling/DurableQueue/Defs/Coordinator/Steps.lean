import DurableQueue.Lib.Exec
import DurableQueue.Defs.StoreLaws
import DurableQueue.Defs.Coordinator.Ops

/-! The atomic steps that the coordinator's operations are made of. -/

namespace DurableQueue

namespace Coordinator

/-! ## Reading the journal -/

def acked (s : Coordinator) : List WalRecord := s.journal.filterMap Event.asAcked

def failed (s : Coordinator) : List WalRecord := s.journal.filterMap Event.asFailed

def nacked (s : Coordinator) : List (WalRecord × WalError) := s.journal.filterMap Event.asNacked

def diverged (s : Coordinator) : List WalRecord := s.journal.filterMap Event.asDiverged

def ended (s : Coordinator) : List LeaseId := s.journal.filterMap Event.asEnded

/-! ## Steps -/

def commit (r : WalRecord) (storage : Storage) (tick : Nat) (s : Coordinator) : Coordinator :=
  { s with
    store := s.store.applyRecordForRecovery r
    storage := storage
    journal := s.journal ++ [.acked r]
    tick := tick }

def refuse (r : WalRecord) (e : WalError) (storage : Storage) (tick : Nat) (s : Coordinator) :
    Coordinator :=
  { s with
    storage := storage
    journal := s.journal ++ [.failed r e]
    tick := tick }

@[simp] theorem acked_commit (r : WalRecord) (st : Storage) (t : Nat) (s : Coordinator) :
    (s.commit r st t).acked = s.acked ++ [r] := by
  simp [acked, commit, Event.asAcked]

@[simp] theorem failed_commit (r : WalRecord) (st : Storage) (t : Nat) (s : Coordinator) :
    (s.commit r st t).failed = s.failed := by
  simp [failed, commit, Event.asFailed]

@[simp] theorem acked_refuse (r : WalRecord) (e : WalError) (st : Storage) (t : Nat)
    (s : Coordinator) :
    (s.refuse r e st t).acked = s.acked := by
  simp [acked, refuse, Event.asAcked]

@[simp] theorem failed_refuse (r : WalRecord) (e : WalError) (st : Storage) (t : Nat)
    (s : Coordinator) :
    (s.refuse r e st t).failed = s.failed ++ [r] := by
  simp [failed, refuse, Event.asFailed]

@[simp] theorem acked_removeLease (id : JobId) (s : Coordinator) :
    (s.removeLease id).acked = s.acked := by
  simp only [acked, removeLease]
  split <;> simp [Event.asAcked]

@[simp] theorem failed_removeLease (id : JobId) (s : Coordinator) :
    (s.removeLease id).failed = s.failed := by
  simp only [failed, removeLease]
  split <;> simp [Event.asFailed]

theorem exposeCancel_eq (id : JobId) (queue : String) (c : JobState) (s : Coordinator) :
    exposeCancel id queue c s = { s with
      leases := if c = .running ∧ (s.queues.get queue).isSome then s.leases.erase id
        else s.leases
      journal := if c = .running ∧ (s.queues.get queue).isSome then (s.removeLease id).journal
        else s.journal
      cancelled := if c = .running ∧ (s.queues.get queue).isSome then (s.cancelLease id).cancelled
        else s.cancelled
      queues := s.queues.modify queue (cancelQueue id c)
      permits := s.permits.erase id
      semaphores := (s.removePermit id).semaphores
      globalStats := { s.globalStats with cancelled := s.globalStats.cancelled + 1 } } := by
  unfold exposeCancel
  split <;> rfl

section

variable (id : JobId) (queue : String) (s : Coordinator)

@[simp] theorem acked_exposeSubmit (queue : QueueName) (permit : OwnedSemaphorePermit) :
    (exposeSubmit id queue permit s).acked = s.acked := rfl

@[simp] theorem failed_exposeSubmit (queue : QueueName) (permit : OwnedSemaphorePermit) :
    (exposeSubmit id queue permit s).failed = s.failed := rfl

@[simp] theorem acked_exposeCancel (st : JobState) :
    (exposeCancel id queue st s).acked = s.acked := by
  change (if _ then cancelLease id s else s).acked = _
  split
  · exact acked_removeLease id s
  · rfl

@[simp] theorem failed_exposeCancel (st : JobState) :
    (exposeCancel id queue st s).failed = s.failed := by
  change (if _ then cancelLease id s else s).failed = _
  split
  · exact failed_removeLease id s
  · rfl

@[simp] theorem acked_exposeLease (lease : ActiveLease) :
    (exposeLease id queue lease (popReady queue s)).acked = s.acked := rfl

@[simp] theorem failed_exposeLease (lease : ActiveLease) :
    (exposeLease id queue lease (popReady queue s)).failed = s.failed := rfl

@[simp] theorem acked_exposeFinish (count : QueueStats → QueueStats)
    (countGlobal : GlobalStats → GlobalStats) :
    (exposeFinish id queue count countGlobal s).acked = s.acked := rfl

@[simp] theorem failed_exposeFinish (count : QueueStats → QueueStats)
    (countGlobal : GlobalStats → GlobalStats) :
    (exposeFinish id queue count countGlobal s).failed = s.failed := rfl

@[simp] theorem acked_exposeRetry (entry : RetryEntry) :
    (exposeRetry queue entry s).acked = s.acked := rfl

@[simp] theorem failed_exposeRetry (entry : RetryEntry) :
    (exposeRetry queue entry s).failed = s.failed := rfl

end

structure Ended (leases leases' : HashMap JobId ActiveLease) (ls : List LeaseId) : Prop where
  shrink : ∀ id l, leases'.get id = some l → leases.get id = some l
  gone : ∀ l ∈ ls, ∃ id lease, leases.get id = some lease ∧ lease.leaseId = l ∧
    leases'.get id = none

theorem Ended.refl (leases : HashMap JobId ActiveLease) : Ended leases leases [] :=
  ⟨fun _ _ h => h, fun _ h => nomatch h⟩

theorem Ended.trans {leases leases' leases'' : HashMap JobId ActiveLease} {ls ls' : List LeaseId}
    (h : Ended leases leases' ls) (h' : Ended leases' leases'' ls') :
    Ended leases leases'' (ls ++ ls') := by
  refine ⟨fun id l hl => h.shrink id l (h'.shrink id l hl), fun l hl => ?_⟩
  rcases List.mem_append.mp hl with hl | hl
  · obtain ⟨id, lease, hget, heq, hnone⟩ := h.gone l hl
    refine ⟨id, lease, hget, heq, ?_⟩
    cases hget'' : leases''.get id with
    | none => rfl
    | some lease' =>
      rw [h'.shrink id lease' hget''] at hnone
      cases hnone
  · obtain ⟨id, lease, hget, heq, hnone⟩ := h'.gone l hl
    exact ⟨id, lease, h.shrink id lease hget, heq, hnone⟩

theorem removeLease_ended (id : JobId) (s : Coordinator) :
    ∃ ls : List LeaseId, (s.removeLease id).journal = s.journal ++ ls.map Event.ended ∧
      Ended s.leases (s.leases.erase id) ls := by
  have hshrink : ∀ id' l, (s.leases.erase id).get id' = some l → s.leases.get id' = some l := by
    intro id' l hl
    rw [HashMap.get_erase] at hl
    split at hl
    · cases hl
    · exact hl
  cases hl : s.leases.get id with
  | none => exact ⟨[], by simp [removeLease, hl], hshrink, fun l h => absurd h List.not_mem_nil⟩
  | some lease =>
    refine ⟨[lease.leaseId], by simp [removeLease, hl], hshrink, fun l hl' => ?_⟩
    exact ⟨id, lease, hl, (List.mem_singleton.mp hl').symm, HashMap.get_erase_self ..⟩

theorem cancelLeases_frame (ids : List JobId) (s : Coordinator) :
    ∃ leases cancelled, ∃ ls : List LeaseId,
      ids.foldl (fun s id => s.cancelLease id) s = { s with
        leases := leases
        cancelled := cancelled
        journal := s.journal ++ ls.map Event.ended } ∧
      Ended s.leases leases ls := by
  induction ids generalizing s with
  | nil => exact ⟨s.leases, s.cancelled, [], by simp, .refl _⟩
  | cons id ids ih =>
    obtain ⟨leases, cancelled, ls, heq, hended⟩ := ih (s.cancelLease id)
    obtain ⟨ls', hjournal, hended'⟩ := removeLease_ended id s
    refine ⟨leases, cancelled, ls' ++ ls, ?_, hended'.trans hended⟩
    have hjournal : (s.cancelLease id).journal = s.journal ++ ls'.map Event.ended := hjournal
    rw [List.foldl_cons, heq, hjournal, List.append_assoc, ← List.map_append]
    rfl

theorem forceShutdown_frame (s : Coordinator) :
    ∃ leases cancelled sent, ∃ ls : List LeaseId,
      s.forceShutdown.exit = { s with
        leases := leases
        cancelled := cancelled
        sent := sent
        journal := s.journal ++ ls.map Event.ended
        shutdownReply := none
        semaphores := s.semaphores.mapValues (fun sem => { sem with closed := true })
        exited := true } ∧
      Ended s.leases leases ls := by
  obtain ⟨leases, cancelled, ls, heq, hended⟩ := cancelLeases_frame s.leases.keys s
  refine ⟨leases, cancelled, s.forceShutdown.sent, ls, ?_, hended⟩
  rw [forceShutdown, heq]
  rfl

def CursorInside (s : Coordinator) : Prop :=
  s.queueOrder = [] ∨ s.nextQueueIdx < s.queueOrder.length

structure Quiet (s s' : Coordinator) : Prop where
  store : s'.store = s.store
  storage : s'.storage = s.storage
  queues : s'.queues = s.queues
  queueOrder : s'.queueOrder = s.queueOrder
  cursor : s.CursorInside → s'.CursorInside
  permits : s'.permits = s.permits
  leases : s'.leases = s.leases
  retryQueue : s'.retryQueue = s.retryQueue
  available : ∀ q, (s'.semaphores.get q).map (·.available) = (s.semaphores.get q).map (·.available)
  inFlight : s'.inFlight = s.inFlight
  nextLeaseEpoch : s'.nextLeaseEpoch = s.nextLeaseEpoch
  globalStats : { s'.globalStats with staleOutcomes := 0 } =
    { s.globalStats with staleOutcomes := 0 }
  journal : s'.journal = s.journal
  exited : s'.exited = false → s.exited = false

/-- In state `s` the coordinator is about to persist a record.  `pre` is the state in which
it calls `persist`; `expose` are the effects it shows once the record is applied. -/
inductive Offers (s : Coordinator) :
    WalRecord → (pre : Coordinator) → (expose : Coordinator → Coordinator) → Prop
  | submit {id : JobId} {queue : QueueName} {spec : JobSpec} {createdAt : UnixMillis}
      {permit : OwnedSemaphorePermit} (hqueue : (s.queues.get queue.asStr).isSome)
      (hfresh : s.store.get id = none) (hpermit : permit ∈ s.inFlight)
      (hfor : permit.queue = queue.asStr) :
      Offers s (.jobSubmitted id queue spec createdAt) s (exposeSubmit id queue permit)
  | cancel {id : JobId} {job : JobRecord} {cancelledAt : UnixMillis}
      (hjob : s.store.get id = some job) (hlive : job.state.isTerminal = false) :
      Offers s (.jobCancelled id cancelledAt) s (exposeCancel id job.queue.asStr job.state)
  | lease {id : JobId} {job : JobRecord} {queue : String} {qs : QueueState}
      {leasedAt : UnixMillis} {deadline : Instant} (hqueue : s.queues.get queue = some qs)
      (hfront : qs.ready.head? = some id) (hjob : s.store.get id = some job)
      (hstate : job.state = .queued) :
      Offers s (.jobLeased id ⟨s.nextLeaseEpoch⟩ (job.attempts + 1) leasedAt) s
        (fun s' => exposeLease id queue ⟨⟨s.nextLeaseEpoch⟩, deadline⟩ (popReady queue s'))
  | complete {id : JobId} {job : JobRecord} {lease : ActiveLease} {completedAt : UnixMillis}
      (hlease : s.leases.get id = some lease) (hjob : s.store.get id = some job)
      (hstate : job.state = .running) :
      Offers s (.jobCompleted id lease.leaseId completedAt) (s.removeLease id)
        (exposeFinish id job.queue.asStr (fun st => { st with completed := st.completed + 1 })
          (fun g => { g with completed := g.completed + 1 }))
  | die {id : JobId} {job : JobRecord} {lease : ActiveLease} {deadAt : UnixMillis}
      (hlease : s.leases.get id = some lease) (hjob : s.store.get id = some job)
      (hstate : job.state = .running) :
      Offers s (.jobDead id lease.leaseId deadAt) (s.removeLease id)
        (exposeFinish id job.queue.asStr (fun st => { st with dead := st.dead + 1 })
          (fun g => { g with dead := g.dead + 1 }))
  | retry {id : JobId} {job : JobRecord} {lease : ActiveLease} {availableAt : UnixMillis}
      {deadline : Instant} (hlease : s.leases.get id = some lease)
      (hjob : s.store.get id = some job) (hstate : job.state = .running)
      (hattempts : job.attempts < job.spec.maxAttempts) :
      Offers s (.jobRetryScheduled id lease.leaseId job.attempts availableAt) (s.removeLease id)
        (exposeRetry job.queue.asStr ⟨deadline, availableAt, id⟩)

variable (X : Crates) (P : Fault → Prop)

inductive Step (s : Coordinator) : Coordinator → Prop
  | quiet {s' : Coordinator} (h : Quiet s s') : Step s s'
  | ack {r : WalRecord} {pre : Coordinator} {expose : Coordinator → Coordinator}
      {fault : Fault} {seq : Option UInt64} {storage : Storage} (h : Offers s r pre expose)
      (hfault : P fault) (hp : s.storage.persist X r fault = (.ok seq, storage)) (tick : Nat) :
      Step s (expose (pre.commit r storage tick))
  | nack {r : WalRecord} {pre : Coordinator} {expose : Coordinator → Coordinator}
      {fault : Fault} {e : WalError} {storage : Storage} (h : Offers s r pre expose)
      (hfault : P fault) (hp : s.storage.persist X r fault = (.error e, storage)) (tick : Nat) :
      Step s (pre.refuse r e storage tick)
  | requeue {entry : RetryEntry} {job : JobRecord} (hentry : entry ∈ s.retryQueue)
      (hjob : s.store.get entry.jobId = some job) (hstate : job.state = .retryWaiting) :
      Step s (({ s with
        retryQueue := s.retryQueue.erase entry
        store := s.store.insert entry.jobId { job with state := .queued } }
          : Coordinator).requeue entry.jobId job.queue.asStr)
  | dropEntry {entry : RetryEntry} (hentry : entry ∈ s.retryQueue)
      (hjob : ∀ job, s.store.get entry.jobId = some job → job.state ≠ .retryWaiting) :
      Step s { s with retryQueue := s.retryQueue.erase entry }
  | acquire {queue : String} {sem : Semaphore} (hsem : s.semaphores.get queue = some sem)
      (havail : 0 < sem.available) : Step s (s.acquire queue)
  | returnPermit {permit : OwnedSemaphorePermit} (hpermit : permit ∈ s.inFlight) :
      Step s (s.returnPermit permit)
  | forceShutdown : Step s s.forceShutdown.exit

abbrev Steps : Coordinator → Coordinator → Prop := Relation.ReflTransGen (Step X P)

end Coordinator

end DurableQueue
