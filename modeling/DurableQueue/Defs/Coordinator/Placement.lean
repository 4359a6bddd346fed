import DurableQueue.Defs.Coordinator.Steps

/-! Every live job is held in one place: the ready deque of its queue, the retry heap or
the lease map. -/

namespace DurableQueue

namespace Coordinator

structure Placement (config : RuntimeConfig) (s : Coordinator) : Prop where
  /-- there is a deque for every configured queue and no other -/
  queues : ∀ q, (s.queues.get q).isSome = (config.capacity q).isSome
  /-- live jobs belong to configured queues -/
  configured : ∀ id st q, s.store.place id = some (st, q) → st.isTerminal = false →
    (s.queues.get q).isSome
  /-- a deque holds the queued jobs of its queue, each once -/
  ready_nodup : ∀ q qs, s.queues.get q = some qs → qs.ready.Nodup
  mem_ready : ∀ q qs id, s.queues.get q = some qs →
    (id ∈ qs.ready ↔ s.store.place id = some (.queued, q))
  /-- a waiting job has one entry in the heap; the other entries are of cancelled jobs -/
  waiting : ∀ id q, s.store.place id = some (.retryWaiting, q) →
    (s.retryQueue.map (·.jobId)).count id = 1
  heap : ∀ e ∈ s.retryQueue, ∃ q, s.store.place e.jobId = some (.retryWaiting, q) ∨
    s.store.place e.jobId = some (.cancelled, q)
  /-- a leased job is running under the lease that was logged last for it -/
  leased : ∀ id lease, s.leases.get id = some lease →
    (∃ q, s.store.place id = some (.running, q)) ∧ lastLease s.acked id = some lease.leaseId
  /-- and every running job is leased, unless a persist call has failed -/
  running : s.failed = [] → s.exited = false → ∀ id q, s.store.place id = some (.running, q) →
    ∃ lease, s.leases.get id = some lease

variable {config : RuntimeConfig} {X : Crates} {P : Fault → Prop} {s s' : Coordinator}

theorem Quiet.placement (h : Quiet s s') (hs : Placement config s) : Placement config s' where
  queues := by simpa [h.queues] using hs.queues
  configured := by simpa [h.store, h.queues] using hs.configured
  ready_nodup := by simpa [h.queues] using hs.ready_nodup
  mem_ready := by simpa [h.store, h.queues] using hs.mem_ready
  waiting := by simpa [h.store, h.retryQueue] using hs.waiting
  heap := by simpa [h.store, h.retryQueue] using hs.heap
  leased := by simpa [h.store, h.leases, acked, h.journal] using hs.leased
  running := by
    intro hf he id q hid
    rw [h.store] at hid
    rw [h.leases]
    exact hs.running (by simpa [failed, h.journal] using hf) (h.exited he) id q hid

def waitingIds (s : Coordinator) : List JobId := s.retryQueue.map (·.jobId)

/-- What it takes to move job `i` to state `d` of queue `q` and keep everything in place:
the deques, the heap and the lease map may change at `i` only, and as `d` demands. -/
structure Moves (s s' : Coordinator) (i : JobId) (d : JobState) (q : String) : Prop where
  place : ∀ id, s'.store.place id = if id = i then some (d, q) else s.store.place id
  queue : (s.queues.get q).isSome
  queues : ∀ q', (s'.queues.get q').isSome = (s.queues.get q').isSome
  ready : ∀ q' qs', s'.queues.get q' = some qs' → ∃ qs, s.queues.get q' = some qs ∧
    qs'.ready.Nodup ∧
    ∀ id, id ∈ qs'.ready ↔ if id = i then d = .queued ∧ q' = q else id ∈ qs.ready
  heap_self : ∀ e ∈ s'.retryQueue, e.jobId = i → d = .retryWaiting ∨ d = .cancelled
  heap_other : ∀ e ∈ s'.retryQueue, e.jobId ≠ i → e ∈ s.retryQueue
  count_self : d = .retryWaiting → s'.waitingIds.count i = 1
  count_other : ∀ id, id ≠ i → s'.waitingIds.count id = s.waitingIds.count id
  lease_self : ∀ l, s'.leases.get i = some l → d = .running ∧ lastLease s'.acked i = some l.leaseId
  lease_other : ∀ id, id ≠ i → s'.leases.get id = s.leases.get id
  leased : d = .running → ∃ l, s'.leases.get i = some l
  acked : ∀ id, id ≠ i → lastLease s'.acked id = lastLease s.acked id
  failed : s'.failed = [] → s.failed = []
  exited : s'.exited = false → s.exited = false

theorem Moves.placement {i : JobId} {d : JobState} {q : String} (h : Moves s s' i d q)
    (hs : Placement config s) : Placement config s' where
  queues q' := by rw [h.queues, hs.queues]
  configured id st q' hid hst := by
    rw [h.queues]
    rw [h.place] at hid
    split at hid
    · cases hid
      exact h.queue
    · exact hs.configured id st q' hid hst
  ready_nodup q' qs' hq := by
    obtain ⟨_, _, hnodup, _⟩ := h.ready q' qs' hq
    exact hnodup
  mem_ready q' qs' id hq := by
    obtain ⟨qs, hqs, _, hmem⟩ := h.ready q' qs' hq
    rw [hmem, h.place]
    split
    · simp [eq_comm]
    · exact hs.mem_ready q' qs id hqs
  waiting id q' hid := by
    rw [h.place] at hid
    split at hid
    · rename_i heq
      cases hid
      rw [heq]
      exact h.count_self rfl
    · rename_i hne
      exact (h.count_other id hne).trans (hs.waiting id q' hid)
  heap e he := by
    rw [h.place]
    split
    · rename_i heq
      exact ⟨q, by rcases h.heap_self e he heq with rfl | rfl <;> simp⟩
    · rename_i hne
      exact hs.heap e (h.heap_other e he hne)
  leased id l hl := by
    rw [h.place]
    split
    · rename_i heq
      subst heq
      obtain ⟨rfl, hlast⟩ := h.lease_self l hl
      exact ⟨⟨q, rfl⟩, hlast⟩
    · rename_i hne
      rw [h.acked id hne]
      rw [h.lease_other id hne] at hl
      exact hs.leased id l hl
  running hf he id q' hid := by
    rw [h.place] at hid
    split at hid
    · rename_i heq
      cases hid
      rw [heq]
      exact h.leased rfl
    · rename_i hne
      rw [h.lease_other id hne]
      exact hs.running (h.failed hf) (h.exited he) id q' hid

theorem Placement.ready_of_modify (hs : Placement config s) {i : JobId} {d : JobState}
    {q : String} {f : QueueState → QueueState}
    (hold : s.store.place i = none ∨ ∃ c, s.store.place i = some (c, q))
    (hf : ∀ qs, s.queues.get q = some qs → (f qs).ready.Nodup ∧
      ∀ id, id ∈ (f qs).ready ↔ if id = i then d = .queued else id ∈ qs.ready)
    (q' : String) (qs' : QueueState) (hq' : (s.queues.modify q f).get q' = some qs') :
    ∃ qs, s.queues.get q' = some qs ∧ qs'.ready.Nodup ∧
      ∀ id, id ∈ qs'.ready ↔ if id = i then d = .queued ∧ q' = q else id ∈ qs.ready := by
  rw [HashMap.get_modify] at hq'
  split at hq'
  · rename_i heq
    subst heq
    obtain ⟨qs, hqs, rfl⟩ := Option.map_eq_some_iff.mp hq'
    obtain ⟨hnodup, hmem⟩ := hf qs hqs
    exact ⟨qs, hqs, hnodup, by simpa using hmem⟩
  · rename_i hne
    refine ⟨qs', hq', hs.ready_nodup q' qs' hq', ?_⟩
    intro id
    split
    · rename_i heq
      subst heq
      rw [hs.mem_ready q' qs' id hq']
      rcases hold with hnone | ⟨c, hc⟩
      · simp [hnone, hne]
      · simp only [hc, hne, and_false, iff_false]
        intro h
        cases h
        exact hne rfl
    · rfl

theorem Placement.not_waiting (hs : Placement config s) {id : JobId} {st : JobState}
    {q : String} (hid : s.store.place id = some (st, q)) (hw : st ≠ .retryWaiting)
    (hc : st ≠ .cancelled) {e : RetryEntry} (he : e ∈ s.retryQueue) : e.jobId ≠ id := by
  rintro rfl
  obtain ⟨q', h | h⟩ := hs.heap e he
  · rw [hid] at h
    cases h
    exact hw rfl
  · rw [hid] at h
    cases h
    exact hc rfl

theorem Placement.not_leased (hs : Placement config s) {id : JobId} {st : JobState}
    {q : String} (hid : s.store.place id = some (st, q)) (hr : st ≠ .running) :
    s.leases.get id = none := by
  cases hl : s.leases.get id with
  | none => rfl
  | some lease =>
    obtain ⟨⟨q', h⟩, _⟩ := hs.leased id lease hl
    rw [hid] at h
    cases h
    exact absurd rfl hr

theorem Placement.not_ready (hs : Placement config s) {id : JobId} {st : JobState}
    {q q' : String} (hid : s.store.place id = some (st, q)) (hr : st ≠ .queued)
    {qs : QueueState} (hq : s.queues.get q' = some qs) : id ∉ qs.ready := by
  rw [hs.mem_ready q' qs id hq, hid]
  intro h
  cases h
  exact hr rfl

theorem Placement.unknown (hs : Placement config s) {id : JobId} (hid : s.store.place id = none) :
    s.leases.get id = none ∧ (∀ e ∈ s.retryQueue, e.jobId ≠ id) ∧
      ∀ q qs, s.queues.get q = some qs → id ∉ qs.ready := by
  refine ⟨?_, ?_, ?_⟩
  · cases hl : s.leases.get id with
    | none => rfl
    | some lease =>
      obtain ⟨⟨q, h⟩, _⟩ := hs.leased id lease hl
      rw [hid] at h
      cases h
  · rintro e he rfl
    obtain ⟨q, h | h⟩ := hs.heap e he <;> rw [hid] at h <;> cases h
  · intro q qs hq
    rw [hs.mem_ready q qs id hq, hid]
    simp

theorem submit_moves (hs : Placement config s) {id : JobId} {queue : QueueName}
    {spec : JobSpec} {createdAt : UnixMillis} {permit : OwnedSemaphorePermit}
    (hqueue : (s.queues.get queue.asStr).isSome) (hfresh : s.store.get id = none)
    (st : Storage) (t : Nat) :
    Moves s (exposeSubmit id queue permit (s.commit (.jobSubmitted id queue spec createdAt) st t))
      id .queued queue.asStr := by
  have hnone : s.store.place id = none := by simp [MemoryStore.place, hfresh]
  obtain ⟨hlease, hheap, hready⟩ := hs.unknown hnone
  refine
    { place := MemoryStore.place_submitted s.store id queue spec createdAt
      queue := hqueue
      queues := fun q => HashMap.isSome_get_modify s.queues queue.asStr q _
      ready := hs.ready_of_modify (Or.inl hnone) ?_
      heap_self := fun e he heq => absurd heq (hheap e he)
      heap_other := fun e he _ => he
      count_self := by simp
      count_other := fun _ _ => rfl
      lease_self := fun l hl => absurd (hlease.symm.trans hl) (by simp)
      lease_other := fun _ _ => rfl
      leased := by simp
      acked := by simp [WalRecord.leaseFor]
      failed := by simp
      exited := fun h => h }
  intro qs hqs
  have hnot := hready _ qs hqs
  refine ⟨(hs.ready_nodup _ qs hqs).append (List.nodup_singleton id) (by simpa using hnot), ?_⟩
  intro id'
  by_cases heq : id' = id <;> simp [heq]

theorem Placement.ready_same (hs : Placement config s) {i : JobId} {c d : JobState} {q : String}
    (hi : s.store.place i = some (c, q)) (hc : c ≠ .queued) (hd : d ≠ .queued) (qs : QueueState)
    (hq : s.queues.get q = some qs) :
    qs.ready.Nodup ∧ ∀ id, id ∈ qs.ready ↔ if id = i then d = .queued else id ∈ qs.ready := by
  refine ⟨hs.ready_nodup q qs hq, ?_⟩
  intro id
  split
  · rename_i heq
    simp [heq, hd, hs.not_ready hi hc hq]
  · rfl

theorem finish_moves (hs : Placement config s) {r : WalRecord} {job : JobRecord}
    (hjob : s.store.get r.jobId = some job) (hstate : job.state = .running)
    (hr : r.isSubmitted = false) (hlease : ∀ id, r.leaseFor id = none)
    (hd : r.dst = .completed ∨ r.dst = .dead) (count : QueueStats → QueueStats)
    (countGlobal : GlobalStats → GlobalStats) (st : Storage) (t : Nat) :
    Moves s (exposeFinish r.jobId job.queue.asStr count countGlobal
      ((s.removeLease r.jobId).commit r st t)) r.jobId r.dst job.queue.asStr := by
  have hplace : s.store.place r.jobId = some (.running, job.queue.asStr) := by
    rw [MemoryStore.place_of_get hjob, hstate]
  have hheap : ∀ e ∈ s.retryQueue, e.jobId ≠ r.jobId := fun e he =>
    hs.not_waiting hplace (by simp) (by simp) he
  have hq : r.dst ≠ .queued ∧ r.dst ≠ .retryWaiting ∧ r.dst ≠ .running := by
    rcases hd with hd | hd <;> simp [hd]
  exact
    { place := MemoryStore.place_apply hjob hr
      queue := hs.configured _ _ _ hplace rfl
      queues := fun q => HashMap.isSome_get_modify s.queues _ q _
      ready := hs.ready_of_modify (Or.inr ⟨_, hplace⟩)
        (fun qs hqs => hs.ready_same hplace (by simp) hq.1 qs hqs)
      heap_self := fun e he heq => absurd heq (hheap e he)
      heap_other := fun e he _ => he
      count_self := fun h => absurd h hq.2.1
      count_other := fun _ _ => rfl
      lease_self := fun l hl => by
        change (s.leases.erase r.jobId).get r.jobId = some l at hl
        simp at hl
      lease_other := fun id hne => (HashMap.get_erase ..).trans (if_neg hne)
      leased := fun h => absurd h hq.2.2
      acked := by simp [hlease]
      failed := by simp
      exited := fun h => h }

theorem retry_moves (hs : Placement config s) {id : JobId} {job : JobRecord}
    (hjob : s.store.get id = some job) (hstate : job.state = .running) (leaseId : LeaseId)
    (attempt : UInt32) (availableAt : UnixMillis) (deadline : Instant) (st : Storage) (t : Nat) :
    Moves s (exposeRetry job.queue.asStr ⟨deadline, availableAt, id⟩
      ((s.removeLease id).commit (.jobRetryScheduled id leaseId attempt availableAt) st t))
      id .retryWaiting job.queue.asStr := by
  have hplace : s.store.place id = some (.running, job.queue.asStr) := by
    rw [MemoryStore.place_of_get hjob, hstate]
  have hheap : ∀ e ∈ s.retryQueue, e.jobId ≠ id := fun e he =>
    hs.not_waiting hplace (by simp) (by simp) he
  have hcount : s.waitingIds.count id = 0 := by
    rw [List.count_eq_zero]
    intro hmem
    obtain ⟨e, he, heq⟩ := List.mem_map.mp hmem
    exact hheap e he heq
  exact
    { place := MemoryStore.place_apply (r := .jobRetryScheduled id leaseId attempt availableAt)
        hjob rfl
      queue := hs.configured _ _ _ hplace rfl
      queues := fun q => HashMap.isSome_get_modify s.queues _ q _
      ready := hs.ready_of_modify (Or.inr ⟨_, hplace⟩)
        (fun qs hqs => hs.ready_same hplace (by simp) (by simp) qs hqs)
      heap_self := by simp
      heap_other := fun e he hne => by
        rcases List.mem_cons.mp he with rfl | he
        · exact absurd rfl hne
        · exact he
      count_self := fun _ => by
        change (id :: s.waitingIds).count id = 1
        simp [hcount]
      count_other := fun id' hne => by
        change (id :: s.waitingIds).count id' = _
        exact List.count_cons_of_ne (fun h => hne h.symm)
      lease_self := fun l hl => by
        change (s.leases.erase id).get id = some l at hl
        simp at hl
      lease_other := fun id hne => (HashMap.get_erase ..).trans (if_neg hne)
      leased := by simp
      acked := by simp [WalRecord.leaseFor]
      failed := by simp
      exited := fun h => h }

theorem lease_moves (hs : Placement config s) {id : JobId} {job : JobRecord} {queue : String}
    {qs : QueueState} (hqueue : s.queues.get queue = some qs)
    (hfront : qs.ready.head? = some id) (hjob : s.store.get id = some job)
    (leaseId : LeaseId) (attempt : UInt32) (leasedAt : UnixMillis) (deadline : Instant)
    (st : Storage) (t : Nat) :
    Moves s (exposeLease id queue ⟨leaseId, deadline⟩ (popReady queue
      (s.commit (.jobLeased id leaseId attempt leasedAt) st t))) id .running queue := by
  obtain ⟨rest, hready⟩ : ∃ rest, qs.ready = id :: rest := by
    cases h : qs.ready with
    | nil => simp [h] at hfront
    | cons a rest => exact ⟨rest, by simpa [h] using hfront⟩
  have hplace : s.store.place id = some (.queued, queue) :=
    (hs.mem_ready queue qs id hqueue).mp (by simp [hready])
  have hjobq : job.queue.asStr = queue := by
    rw [MemoryStore.place_of_get hjob] at hplace
    exact (Prod.mk.inj (Option.some.inj hplace)).2
  have hheap : ∀ e ∈ s.retryQueue, e.jobId ≠ id := fun e he =>
    hs.not_waiting hplace (by simp) (by simp) he
  have hnodup := hs.ready_nodup queue qs hqueue
  rw [hready, List.nodup_cons] at hnodup
  refine
    { place := ?_
      queue := by simp [hqueue]
      queues := fun q => by simp [exposeLease, popReady, updateStats, updateQueue, commit]
      ready := ?_
      heap_self := fun e he heq => absurd heq (hheap e he)
      heap_other := fun e he _ => he
      count_self := by simp
      count_other := fun _ _ => rfl
      lease_self := fun l hl => ?_
      lease_other := fun id hne => (HashMap.get_insert ..).trans (if_neg hne)
      leased := fun _ => ⟨_, HashMap.get_insert_self ..⟩
      acked := fun id' hne => by
        simp [WalRecord.leaseFor, Ne.symm hne]
      failed := by simp
      exited := fun h => h }
  · intro id'
    rw [← hjobq]
    exact MemoryStore.place_apply (r := .jobLeased id leaseId attempt leasedAt) hjob rfl id'
  · -- the front of the deque is taken off, then the counters of the queue change
    have hmod : (exposeLease id queue ⟨leaseId, deadline⟩ (popReady queue
        (s.commit (.jobLeased id leaseId attempt leasedAt) st t))).queues =
        s.queues.modify queue (fun qs => { ready := qs.ready.tail
                                           stats := { qs.stats with
                                             queued := qs.stats.queued - 1
                                             running := qs.stats.running + 1 } }) :=
      HashMap.modify_modify ..
    rw [hmod]
    refine hs.ready_of_modify (Or.inr ⟨_, hplace⟩) ?_
    intro qs' hqs'
    rw [hqueue] at hqs'
    cases hqs'
    simp only [hready, List.tail_cons]
    refine ⟨hnodup.2, ?_⟩
    intro id'
    split
    · rename_i heq
      simpa [heq] using hnodup.1
    · rename_i hne
      simp [hne]
  · change (s.leases.insert id _).get id = some l at hl
    rw [HashMap.get_insert_self] at hl
    cases hl
    simp [WalRecord.leaseFor]

theorem cancelQueue_ready (id : JobId) (c : JobState) (qs : QueueState) :
    (cancelQueue id c qs).ready = if c = .queued then qs.ready.filter (· ≠ id) else qs.ready := by
  cases c <;> rfl

theorem cancel_moves (hs : Placement config s) {id : JobId} {job : JobRecord}
    (hjob : s.store.get id = some job) (hlive : job.state.isTerminal = false)
    (cancelledAt : UnixMillis) (st : Storage) (t : Nat) :
    Moves s (exposeCancel id job.queue.asStr job.state
      (s.commit (.jobCancelled id cancelledAt) st t)) id .cancelled job.queue.asStr := by
  have hplace := MemoryStore.place_of_get hjob
  have hqueue := hs.configured _ _ _ hplace hlive
  have hleases : ∀ id', (exposeCancel id job.queue.asStr job.state
      (s.commit (.jobCancelled id cancelledAt) st t)).leases.get id' =
        if id' = id then none else s.leases.get id' := by
    intro id'
    rw [exposeCancel_eq]
    change (if _ then s.leases.erase id else s.leases).get id' = _
    by_cases hrun : job.state = .running
    · rw [if_pos ⟨hrun, hqueue⟩]
      exact HashMap.get_erase ..
    · rw [if_neg (fun h => hrun h.1)]
      split
      · rename_i heq
        rw [heq]
        exact hs.not_leased hplace hrun
      · rfl
  refine
    { place := ?_
      queue := hqueue
      queues := fun q => by rw [exposeCancel_eq]; exact HashMap.isSome_get_modify ..
      ready := ?_
      heap_self := by simp
      heap_other := fun e he _ => by rwa [exposeCancel_eq] at he
      count_self := by simp
      count_other := fun _ _ => by rw [exposeCancel_eq]; rfl
      lease_self := fun l hl => by simp [hleases] at hl
      lease_other := fun id' hne => by rw [hleases, if_neg hne]
      leased := by simp
      acked := by simp [WalRecord.leaseFor]
      failed := by simp
      exited := fun h => by rwa [exposeCancel_eq] at h }
  · intro id'
    rw [exposeCancel_eq]
    exact MemoryStore.place_apply (r := .jobCancelled id cancelledAt) hjob rfl id'
  · rw [exposeCancel_eq]
    refine hs.ready_of_modify (Or.inr ⟨_, hplace⟩) ?_
    intro qs hqs
    rw [cancelQueue_ready]
    by_cases hq : job.state = .queued
    · rw [if_pos hq]
      refine ⟨(hs.ready_nodup _ qs hqs).filter _, ?_⟩
      intro id'
      by_cases heq : id' = id <;> simp [heq]
    · rw [if_neg hq]
      exact hs.ready_same hplace hq (by simp) qs hqs

theorem requeue_moves (hs : Placement config s) {entry : RetryEntry} {job : JobRecord}
    (hentry : entry ∈ s.retryQueue) (hjob : s.store.get entry.jobId = some job)
    (hstate : job.state = .retryWaiting) :
    Moves s (({ s with
        retryQueue := s.retryQueue.erase entry
        store := s.store.insert entry.jobId { job with state := .queued } }
          : Coordinator).requeue entry.jobId job.queue.asStr)
      entry.jobId .queued job.queue.asStr := by
  have hplace : s.store.place entry.jobId = some (.retryWaiting, job.queue.asStr) := by
    rw [MemoryStore.place_of_get hjob, hstate]
  have hone : (s.waitingIds).count entry.jobId = 1 := hs.waiting _ _ hplace
  have hids : ∀ id, s.waitingIds.count id =
      ((s.retryQueue.erase entry).map (·.jobId)).count id + if id = entry.jobId then 1 else 0 := by
    intro id
    have hperm := (List.perm_cons_erase hentry).map (·.jobId)
    rw [waitingIds, hperm.count_eq, List.map_cons, List.count_cons]
    by_cases heq : id = entry.jobId
    · simp [heq]
    · simp [heq, Ne.symm heq]
  have hgone : ∀ e ∈ s.retryQueue.erase entry, e.jobId ≠ entry.jobId := by
    intro e he heq
    have hmem : entry.jobId ∈ (s.retryQueue.erase entry).map (·.jobId) :=
      List.mem_map.mpr ⟨e, he, heq⟩
    have := List.count_pos_iff.mpr hmem
    have := hids entry.jobId
    simp only [if_true] at this
    omega
  refine
    { place := MemoryStore.place_insert s.store entry.jobId { job with state := .queued }
      queue := hs.configured _ _ _ hplace rfl
      queues := fun q => HashMap.isSome_get_modify s.queues _ q _
      ready := hs.ready_of_modify (Or.inr ⟨_, hplace⟩) ?_
      heap_self := fun e he heq => absurd heq (hgone e he)
      heap_other := fun e he _ => List.mem_of_mem_erase he
      count_self := by simp
      count_other := fun id hne => by rw [hids, if_neg hne]; rfl
      lease_self := fun l hl =>
        absurd ((hs.not_leased hplace (by simp)).symm.trans hl) (by simp)
      lease_other := fun _ _ => rfl
      leased := by simp
      acked := fun _ _ => rfl
      failed := fun h => h
      exited := fun h => h }
  intro qs hqs
  have hnot := hs.not_ready hplace (by simp) hqs
  refine ⟨(hs.ready_nodup _ qs hqs).append (List.nodup_singleton _) (by simpa using hnot), ?_⟩
  intro id'
  by_cases heq : id' = entry.jobId <;> simp [heq]

theorem Offers.moves {r : WalRecord} {pre : Coordinator} {expose : Coordinator → Coordinator}
    (h : Offers s r pre expose) (hs : Placement config s) (st : Storage) (t : Nat) :
    ∃ q, Moves s (expose (pre.commit r st t)) r.jobId r.dst q := by
  cases h with
  | submit hqueue hfresh hpermit hfor => exact ⟨_, submit_moves hs hqueue hfresh st t⟩
  | cancel hjob hlive => exact ⟨_, cancel_moves hs hjob hlive _ st t⟩
  | lease hqueue hfront hjob hstate => exact ⟨_, lease_moves hs hqueue hfront hjob _ _ _ _ st t⟩
  | complete hlease hjob hstate =>
    exact ⟨_, finish_moves (r := .jobCompleted _ _ _) hs hjob hstate rfl (fun _ => rfl)
      (Or.inl rfl) _ _ st t⟩
  | die hlease hjob hstate =>
    exact ⟨_, finish_moves (r := .jobDead _ _ _) hs hjob hstate rfl (fun _ => rfl)
      (Or.inr rfl) _ _ st t⟩
  | retry hlease hjob hstate hattempts =>
    exact ⟨_, retry_moves hs hjob hstate _ _ _ _ st t⟩

theorem Placement.of_fewer_leases (hs : Placement config s) (hstore : s'.store = s.store)
    (hqueues : s'.queues = s.queues) (hretry : s'.retryQueue = s.retryQueue)
    (hleases : ∀ id l, s'.leases.get id = some l → s.leases.get id = some l)
    (hacked : s'.acked = s.acked) (hover : s'.failed = [] → s'.exited = false → False) :
    Placement config s' where
  queues := by simpa [hqueues] using hs.queues
  configured := by simpa [hstore, hqueues] using hs.configured
  ready_nodup := by simpa [hqueues] using hs.ready_nodup
  mem_ready := by simpa [hstore, hqueues] using hs.mem_ready
  waiting := by simpa [hstore, hretry] using hs.waiting
  heap := by simpa [hstore, hretry] using hs.heap
  leased id l hl := by
    rw [hstore, hacked]
    exact hs.leased id l (hleases id l hl)
  running hf he := absurd he (hover hf)

theorem Offers.pre_cases {r : WalRecord} {pre : Coordinator} {expose : Coordinator → Coordinator}
    (h : Offers s r pre expose) : pre = s ∨ pre = s.removeLease r.jobId := by
  cases h <;> simp [WalRecord.jobId]

theorem Placement.refuse (hs : Placement config s) (r : WalRecord) (e : WalError) (st : Storage)
    (t : Nat) :
    Placement config (s.refuse r e st t) :=
  hs.of_fewer_leases rfl rfl rfl (fun _ _ h => h) (by simp) (by simp)

theorem Offers.refuse_placement {r : WalRecord} {pre : Coordinator}
    {expose : Coordinator → Coordinator} (h : Offers s r pre expose) (hs : Placement config s)
    (e : WalError) (st : Storage) (t : Nat) : Placement config (pre.refuse r e st t) := by
  rcases h.pre_cases with rfl | rfl
  · exact hs.refuse r e st t
  · refine hs.of_fewer_leases rfl rfl rfl ?_ (by simp) (by simp)
    intro id l hl
    change (s.leases.erase r.jobId).get id = some l at hl
    rw [HashMap.get_erase] at hl
    split at hl
    · cases hl
    · exact hl

theorem dropEntry_placement (hs : Placement config s) {entry : RetryEntry}
    (hentry : entry ∈ s.retryQueue)
    (hjob : ∀ job, s.store.get entry.jobId = some job → job.state ≠ .retryWaiting) :
    Placement config { s with retryQueue := s.retryQueue.erase entry } where
  queues := hs.queues
  configured := hs.configured
  ready_nodup := hs.ready_nodup
  mem_ready := hs.mem_ready
  waiting id q hid := by
    have hne : entry.jobId ≠ id := by
      rintro rfl
      obtain ⟨job, hget, hp⟩ := Option.map_eq_some_iff.mp hid
      exact hjob job hget (Prod.mk.inj hp).1
    have hcount := hs.waiting id q hid
    rw [((List.perm_cons_erase hentry).map (·.jobId)).count_eq, List.map_cons,
      List.count_cons_of_ne hne] at hcount
    exact hcount
  heap e he := hs.heap e (List.mem_of_mem_erase he)
  leased := hs.leased
  running := hs.running

theorem forceShutdown_placement (hs : Placement config s) :
    Placement config s.forceShutdown.exit := by
  obtain ⟨leases, cancelled, sent, ls, heq, hleases⟩ := forceShutdown_frame s
  rw [heq]
  refine hs.of_fewer_leases rfl rfl rfl hleases.shrink ?_ (by simp)
  simp [acked, List.filterMap_map, Function.comp_def, Event.asAcked]

theorem Step.placement (h : Step X P s s') (hs : Placement config s) : Placement config s' := by
  cases h with
  | quiet h => exact h.placement hs
  | ack h _ _ tick =>
    obtain ⟨q, hmoves⟩ := h.moves hs _ tick
    exact hmoves.placement hs
  | nack h _ _ tick => exact h.refuse_placement hs _ _ tick
  | requeue hentry hjob hstate => exact (requeue_moves hs hentry hjob hstate).placement hs
  | dropEntry hentry hjob => exact dropEntry_placement hs hentry hjob
  | acquire | returnPermit =>
    exact ⟨hs.queues, hs.configured, hs.ready_nodup, hs.mem_ready, hs.waiting, hs.heap, hs.leased,
      hs.running⟩
  | forceShutdown => exact forceShutdown_placement hs

theorem Steps.placement (h : Steps X P s s') (hs : Placement config s) : Placement config s' := by
  induction h with
  | refl => exact hs
  | tail _ hstep ih => exact hstep.placement ih

end Coordinator

end DurableQueue
