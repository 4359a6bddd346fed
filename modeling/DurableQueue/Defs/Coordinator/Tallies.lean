import DurableQueue.Defs.Coordinator.Permits
import DurableQueue.Defs.Coordinator.Placement

/-! The counters of a queue, and the jobs that they count. -/

namespace DurableQueue

namespace QueueStats

def of (stats : QueueStats) : JobState → Nat
  | .queued => stats.queued
  | .running => stats.running
  | .retryWaiting => stats.retrying
  | .completed => stats.completed
  | .dead => stats.dead
  | .cancelled => stats.cancelled

def total (stats : QueueStats) : Nat :=
  stats.queued + stats.running + stats.retrying + stats.completed + stats.dead + stats.cancelled

def Shifts (a b : JobState) (stats stats' : QueueStats) : Prop :=
  stats'.submitted = stats.submitted ∧
    ∀ st, stats'.of st + (if a = st then 1 else 0) = stats.of st + if b = st then 1 else 0

end QueueStats

namespace MemoryStore

def stateIn (store : MemoryStore) (st : JobState) (q : String) : Nat :=
  store.count (fun job => job.state = st ∧ job.queue.asStr = q)

def jobsIn (store : MemoryStore) (q : String) : Nat :=
  store.count (fun job => job.queue.asStr = q)

theorem jobsIn_eq (store : MemoryStore) (q : String) :
    store.jobsIn q = store.stateIn .queued q + store.stateIn .running q +
      store.stateIn .retryWaiting q + store.stateIn .completed q + store.stateIn .dead q +
      store.stateIn .cancelled q := by
  simp only [jobsIn, stateIn, HashMap.count]
  induction store.values with
  | nil => rfl
  | cons job jobs ih =>
    simp only [List.countP_cons, ih]
    cases job.state <;> by_cases hq : job.queue.asStr = q <;> simp [hq] <;> omega

theorem stateIn_pos {store : MemoryStore} {id : JobId} {job : JobRecord}
    (hget : store.get id = some job) : 0 < store.stateIn job.state job.queue.asStr :=
  List.countP_pos_iff.mpr ⟨job, HashMap.mem_values.mpr ⟨id, hget⟩, by simp⟩

section

variable {store : MemoryStore} {id : JobId} {job job' : JobRecord}
  (hget : store.get id = some job) (hqueue : job'.queue = job.queue) (q : String)

include hget hqueue

theorem stateIn_insert (st : JobState) :
    MemoryStore.stateIn (store.insert id job') st q +
        (if job.state = st ∧ job.queue.asStr = q then 1 else 0) =
      store.stateIn st q + if job'.state = st ∧ job.queue.asStr = q then 1 else 0 := by
  have hcount := HashMap.count_insert_old
    (fun job => decide (job.state = st ∧ job.queue.asStr = q)) store id job job' hget
  simpa only [stateIn, hqueue, decide_eq_true_eq] using hcount

theorem jobsIn_insert : MemoryStore.jobsIn (store.insert id job') q = store.jobsIn q := by
  have hcount := HashMap.count_insert_old (fun job => decide (job.queue.asStr = q)) store id job
    job' hget
  rw [hqueue] at hcount
  exact Nat.add_right_cancel hcount

end

theorem stateIn_submitted {store : MemoryStore} {id : JobId} (hfresh : store.get id = none)
    (queue : QueueName) (spec : JobSpec) (createdAt : UnixMillis) (st : JobState) (q : String) :
    MemoryStore.stateIn (store.insert id (.new id queue spec createdAt)) st q =
      store.stateIn st q + if JobState.queued = st ∧ queue.asStr = q then 1 else 0 := by
  rw [stateIn, HashMap.count_insert_new _ _ _ _ hfresh]
  by_cases hq : JobState.queued = st ∧ queue.asStr = q <;> simp [stateIn, JobRecord.new, hq]

theorem jobsIn_submitted {store : MemoryStore} {id : JobId} (hfresh : store.get id = none)
    (queue : QueueName) (spec : JobSpec) (createdAt : UnixMillis) (q : String) :
    MemoryStore.jobsIn (store.insert id (.new id queue spec createdAt)) q =
      store.jobsIn q + if queue.asStr = q then 1 else 0 := by
  rw [jobsIn, HashMap.count_insert_new _ _ _ _ hfresh]
  by_cases hq : queue.asStr = q <;> simp [jobsIn, JobRecord.new, hq]

end MemoryStore

namespace Coordinator

variable {X : Crates} {P : Fault → Prop} {config : RuntimeConfig} {s₀ s s' : Coordinator}

def submittedSum (s : Coordinator) : Nat := (s.queues.values.map fun qs => qs.stats.submitted).sum

structure Tallies (s₀ s : Coordinator) : Prop where
  states : ∀ q qs, s.queues.get q = some qs → ∀ st, qs.stats.of st = s.store.stateIn st q
  submitted : ∀ q qs, s.queues.get q = some qs →
    qs.stats.submitted + s₀.store.jobsIn q = s.store.jobsIn q
  global : s.globalStats.submitted = s₀.globalStats.submitted + s.submittedSum

theorem Tallies.of_same (hs : Tallies s₀ s) (hstore : s'.store = s.store)
    (hqueues : s'.queues = s.queues)
    (hglobal : s'.globalStats.submitted = s.globalStats.submitted) : Tallies s₀ s' where
  states := by simpa only [hstore, hqueues] using hs.states
  submitted := by simpa only [hstore, hqueues] using hs.submitted
  global := by simpa only [hglobal, submittedSum, hqueues] using hs.global

theorem Tallies.moved (hs : Tallies s₀ s) {id : JobId} {job job' : JobRecord}
    {f : QueueState → QueueState} (hget : s.store.get id = some job)
    (hqueue : job'.queue = job.queue) (hstore : s'.store = s.store.insert id job')
    (hqueues : s'.queues = s.queues.modify job.queue.asStr f)
    (hglobal : s'.globalStats.submitted = s.globalStats.submitted)
    (hf : ∀ qs : QueueState, 0 < qs.stats.of job.state →
      qs.stats.Shifts job.state job'.state (f qs).stats) : Tallies s₀ s' := by
  have hshift : ∀ qs, s.queues.get job.queue.asStr = some qs →
      qs.stats.Shifts job.state job'.state (f qs).stats := by
    intro qs hqs
    refine hf qs ?_
    rw [hs.states _ qs hqs]
    exact MemoryStore.stateIn_pos hget
  refine ⟨fun q qs' hqs' st => ?_, fun q qs' hqs' => ?_, ?_⟩
  · have hcount := MemoryStore.stateIn_insert hget hqueue q st
    rw [hqueues, HashMap.get_modify] at hqs'
    rw [hstore]
    split at hqs'
    · rename_i heq
      subst heq
      obtain ⟨qs, hqs, rfl⟩ := Option.map_eq_some_iff.mp hqs'
      have hst := (hshift qs hqs).2 st
      rw [hs.states _ qs hqs] at hst
      simp only [and_true] at hcount
      omega
    · rename_i hne
      rw [hs.states q qs' hqs']
      simpa [Ne.symm hne] using hcount.symm
  · rw [hqueues, HashMap.get_modify] at hqs'
    rw [hstore, MemoryStore.jobsIn_insert hget hqueue]
    split at hqs'
    · rename_i heq
      subst heq
      obtain ⟨qs, hqs, rfl⟩ := Option.map_eq_some_iff.mp hqs'
      rw [(hshift qs hqs).1]
      exact hs.submitted _ qs hqs
    · exact hs.submitted q qs' hqs'
  · have hsum : s'.submittedSum = s.submittedSum := by
      rw [submittedSum, hqueues]
      cases hqs : s.queues.get job.queue.asStr with
      | none => simp only [HashMap.modify, hqs, submittedSum]
      | some qs =>
        have hmod := HashMap.sum_values_modify hqs f (fun qs => qs.stats.submitted)
        rw [(hshift qs hqs).1] at hmod
        exact Nat.add_right_cancel hmod
    rw [hglobal, hsum]
    exact hs.global

theorem Tallies.added (hs : Tallies s₀ s) {id : JobId} {queue : QueueName} {spec : JobSpec}
    {createdAt : UnixMillis} {f : QueueState → QueueState}
    (hqueue : (s.queues.get queue.asStr).isSome) (hfresh : s.store.get id = none)
    (hstore : s'.store = s.store.insert id (.new id queue spec createdAt))
    (hqueues : s'.queues = s.queues.modify queue.asStr f)
    (hglobal : s'.globalStats.submitted = s.globalStats.submitted + 1)
    (hf : ∀ qs, (f qs).stats = { qs.stats with
      submitted := qs.stats.submitted + 1
      queued := qs.stats.queued + 1 }) : Tallies s₀ s' := by
  refine ⟨fun q qs' hqs' st => ?_, fun q qs' hqs' => ?_, ?_⟩
  · have hcount := MemoryStore.stateIn_submitted hfresh queue spec createdAt st q
    rw [hqueues, HashMap.get_modify] at hqs'
    rw [hstore, hcount]
    split at hqs'
    · rename_i heq
      subst heq
      obtain ⟨qs, hqs, rfl⟩ := Option.map_eq_some_iff.mp hqs'
      rw [← hs.states _ qs hqs, hf]
      cases st <;> simp [QueueStats.of]
    · rename_i hne
      simpa [Ne.symm hne] using hs.states q qs' hqs' st
  · rw [hqueues, HashMap.get_modify] at hqs'
    rw [hstore, MemoryStore.jobsIn_submitted hfresh]
    split at hqs'
    · rename_i heq
      subst heq
      obtain ⟨qs, hqs, rfl⟩ := Option.map_eq_some_iff.mp hqs'
      have := hs.submitted _ qs hqs
      simp only [hf, if_true]
      omega
    · rename_i hne
      simpa [Ne.symm hne] using hs.submitted q qs' hqs'
  · obtain ⟨qs, hqs⟩ := Option.isSome_iff_exists.mp hqueue
    have hmod := HashMap.sum_values_modify hqs f (fun qs => qs.stats.submitted)
    have hsum := hs.global
    rw [hf] at hmod
    rw [hglobal, submittedSum, hqueues]
    rw [submittedSum] at hsum
    dsimp only at hmod
    omega

/-! ## Steps -/

namespace Offers

variable {r : WalRecord} {pre : Coordinator} {expose : Coordinator → Coordinator}

theorem shifts (h : Offers s r pre expose) (hs : Placement config s)
    (hsub : r.isSubmitted = false) (st : Storage) (t : Nat) :
    ∃ job f, s.store.get r.jobId = some job ∧
      (expose (pre.commit r st t)).queues = s.queues.modify job.queue.asStr f ∧
      ∀ qs : QueueState, 0 < qs.stats.of job.state → qs.stats.Shifts job.state r.dst (f qs).stats := by
  cases h with
  | submit => cases hsub
  | @cancel id job cancelledAt hjob hlive =>
    refine ⟨job, cancelQueue id job.state, hjob, by rw [exposeCancel_eq]; rfl, fun qs hpos => ?_⟩
    cases hstate : job.state with
    | queued | running | retryWaiting =>
      rw [hstate] at hpos
      refine ⟨rfl, fun st => ?_⟩
      cases st <;> simp_all [cancelQueue, QueueStats.of, WalRecord.dst]
      omega
    | completed | dead | cancelled => rw [hstate] at hlive; cases hlive
  | @lease id job queue qs leasedAt deadline hqueue hfront hjob hstate =>
    have hplace := (hs.mem_ready queue qs id hqueue).mp (List.mem_of_mem_head? hfront)
    rw [MemoryStore.place_of_get hjob] at hplace
    obtain ⟨_, rfl⟩ := Prod.mk.inj (Option.some.inj hplace)
    refine ⟨job, _, hjob, HashMap.modify_modify .., fun qs hpos => ⟨rfl, fun st => ?_⟩⟩
    rw [hstate] at hpos ⊢
    cases st <;> simp_all [QueueStats.of, WalRecord.dst]
    omega
  | complete _ hjob hstate | die _ hjob hstate | retry _ hjob hstate =>
    refine ⟨_, _, hjob, rfl, fun qs hpos => ⟨rfl, fun st => ?_⟩⟩
    rw [hstate] at hpos ⊢
    cases st <;> simp_all [QueueStats.of, WalRecord.dst]
    omega

theorem ack_tallies (h : Offers s r pre expose) (hs : Placement config s) (htally : Tallies s₀ s)
    (st : Storage) (t : Nat) : Tallies s₀ (expose (pre.commit r st t)) := by
  cases hsub : r.isSubmitted with
  | false =>
    obtain ⟨job, f, hjob, hqueues, hf⟩ := h.shifts hs hsub st t
    refine htally.moved hjob (WalRecord.update_queue hsub job).1 ?_ hqueues ?_ ?_
    · rw [h.store_ack, MemoryStore.apply_of_get hjob]
    · rw [h.globalStats_ack]
      cases r <;> first | rfl | cases hsub
    · rwa [WalRecord.update_state]
  | true =>
    cases h with
    | cancel | lease | complete | die | retry => cases hsub
    | submit hqueue hfresh =>
      exact htally.added hqueue hfresh rfl rfl rfl fun _ => rfl

end Offers

theorem Step.tallies (h : Step X P s s') (hs : Placement config s) (htally : Tallies s₀ s) :
    Tallies s₀ s' := by
  cases h with
  | quiet h =>
    refine htally.of_same h.store h.queues ?_
    have := congrArg GlobalStats.submitted h.globalStats
    exact this
  | ack h _ _ tick => exact h.ack_tallies hs htally _ tick
  | nack h _ _ tick =>
    refine htally.of_same (h.store_nack _ _ tick) ?_ (by rw [h.globalStats_nack])
    cases h <;> rfl
  | @requeue entry job hentry hjob hstate =>
    refine @Tallies.moved s₀ s _ htally entry.jobId job { job with state := .queued } _ hjob rfl
      rfl rfl rfl fun qs hpos => ⟨rfl, fun st => ?_⟩
    rw [hstate] at hpos ⊢
    cases st <;> simp_all [QueueStats.of]
    omega
  | dropEntry | acquire | returnPermit => exact htally.of_same rfl rfl rfl
  | forceShutdown =>
    obtain ⟨_, _, _, _, heq, _⟩ := forceShutdown_frame s
    rw [heq]
    exact htally.of_same rfl rfl rfl

end Coordinator

end DurableQueue
