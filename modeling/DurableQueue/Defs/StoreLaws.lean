import DurableQueue.Defs.Store

/-! What a record does to the store, job by job, and how the strict and the relaxed
application relate. -/

namespace DurableQueue

namespace WalRecord

def dst : WalRecord → JobState
  | .jobSubmitted .. => .queued
  | .jobLeased .. => .running
  | .jobRetryScheduled .. => .retryWaiting
  | .jobCompleted .. => .completed
  | .jobDead .. => .dead
  | .jobCancelled .. => .cancelled

/-- The effect of a record on a job that is already there. -/
def update : WalRecord → JobRecord → JobRecord
  | .jobSubmitted id queue spec createdAt, _ => JobRecord.new id queue spec createdAt
  | .jobLeased _ _ attempt _, job => { job with state := .running, attempts := attempt }
  | r, job => { job with state := r.dst }

def effect : WalRecord → Option JobRecord → Option JobRecord
  | .jobSubmitted id queue spec createdAt, _ => some (JobRecord.new id queue spec createdAt)
  | r, entry => entry.map r.update

@[simp] theorem update_state (r : WalRecord) (job : JobRecord) : (r.update job).state = r.dst := by
  cases r <;> rfl

theorem effect_some (r : WalRecord) (job : JobRecord) : r.effect (some job) = some (r.update job) := by
  cases r <;> rfl

theorem update_queue {r : WalRecord} (h : r.isSubmitted = false) (job : JobRecord) :
    (r.update job).queue = job.queue ∧ (r.update job).spec = job.spec := by
  cases r <;> first | exact ⟨rfl, rfl⟩ | cases h

theorem update_ignores_state (r : WalRecord) (job : JobRecord) (state : JobState) :
    r.update { job with state := state } = r.update job := by
  cases r <;> rfl

end WalRecord

namespace MemoryStore

theorem get_applyRecordForRecovery (store : MemoryStore) (r : WalRecord) (id : JobId) :
    (store.applyRecordForRecovery r).get id =
      if id = r.jobId then r.effect (store.get id) else store.get id := by
  by_cases h : id = r.jobId
  · subst h
    cases r with
    | jobSubmitted => simp [applyRecordForRecovery, WalRecord.jobId, WalRecord.effect]
    | jobLeased | jobRetryScheduled | jobCompleted | jobDead | jobCancelled =>
      simp only [applyRecordForRecovery, HashMap.get_modify, WalRecord.jobId, if_true]
      rfl
  · rw [if_neg h]
    cases r with
    | jobSubmitted => exact (HashMap.get_insert ..).trans (if_neg h)
    | jobLeased | jobRetryScheduled | jobCompleted | jobDead | jobCancelled =>
      exact (HashMap.get_modify ..).trans (if_neg h)

theorem get_apply_cases {store : MemoryStore} {r : WalRecord} {id : JobId} {job : JobRecord}
    (hget : (store.applyRecordForRecovery r).get id = some job) :
    id ≠ r.jobId ∧ store.get id = some job ∨ id = r.jobId ∧ job.state = r.dst := by
  rw [get_applyRecordForRecovery] at hget
  split at hget
  · rename_i heq
    right
    refine ⟨heq, ?_⟩
    cases hold : store.get id with
    | none =>
      rw [hold] at hget
      cases r <;> first | (cases hget; rfl) | cases hget
    | some old =>
      rw [hold, WalRecord.effect_some] at hget
      cases hget
      exact r.update_state old
  · rename_i hne
    exact Or.inl ⟨hne, hget⟩

theorem isValidTransition_cancelled {st : JobState} (h : st.isTerminal = false) :
    isValidTransition st .cancelled := by
  cases st <;> first | rfl | cases h

/-- The strict application, where it succeeds, does what the relaxed one does. -/
theorem applyRecord_eq {store : MemoryStore} {r : WalRecord} {job : JobRecord}
    (hget : store.get r.jobId = some job) (hvalid : isValidTransition job.state r.dst) :
    store.applyRecord r = .ok (store.applyRecordForRecovery r) := by
  cases r with
  | jobSubmitted => rfl
  | jobLeased | jobRetryScheduled | jobCompleted | jobDead | jobCancelled =>
    simp only [WalRecord.jobId] at hget
    simp only [WalRecord.dst] at hvalid
    simp [applyRecord, applyRecordForRecovery, transition, HashMap.modify, hget, hvalid]

theorem transitionToQueued_eq {store : MemoryStore} {id : JobId} {job : JobRecord}
    (hget : store.get id = some job) (hstate : job.state = .retryWaiting) :
    store.transitionToQueued id = .ok (store.insert id { job with state := .queued }) := by
  simp [transitionToQueued, transition, hget, hstate, isValidTransition]

theorem apply_of_get {store : MemoryStore} {r : WalRecord} {job : JobRecord}
    (hget : store.get r.jobId = some job) :
    store.applyRecordForRecovery r = store.insert r.jobId (r.update job) := by
  cases r with
  | jobSubmitted => rfl
  | jobLeased | jobRetryScheduled | jobCompleted | jobDead | jobCancelled =>
    rw [WalRecord.jobId] at hget
    simp only [applyRecordForRecovery, HashMap.modify, hget]
    rfl

theorem liveIn_submitted {store : MemoryStore} {id : JobId} (hfresh : store.get id = none)
    (queue : QueueName) (spec : JobSpec) (createdAt : UnixMillis) (q : String) :
    (store.applyRecordForRecovery (.jobSubmitted id queue spec createdAt)).liveIn q =
      store.liveIn q + if queue.asStr = q then 1 else 0 := by
  rw [applyRecordForRecovery, liveIn, HashMap.count_insert_new _ _ _ _ hfresh]
  by_cases hq : queue.asStr = q <;>
    simp [hq, liveIn, JobRecord.new, JobRecord.isLive, JobState.isTerminal]

theorem liveIn_apply {store : MemoryStore} {r : WalRecord} {job : JobRecord}
    (hget : store.get r.jobId = some job) (hr : r.isSubmitted = false)
    (hlive : job.state.isTerminal = false) (q : String) :
    (store.applyRecordForRecovery r).liveIn q +
        (if r.dst.isTerminal ∧ job.queue.asStr = q then 1 else 0) = store.liveIn q := by
  have hcount := HashMap.count_insert_old (fun job => job.isLive && job.queue.asStr = q) store
    r.jobId job (r.update job) hget
  have hold : (job.isLive && decide (job.queue.asStr = q)) = decide (job.queue.asStr = q) := by
    simp [JobRecord.isLive, hlive]
  have hnew : ((r.update job).isLive && decide ((r.update job).queue.asStr = q)) =
      (!r.dst.isTerminal && decide (job.queue.asStr = q)) := by
    rw [JobRecord.isLive, WalRecord.update_state, (WalRecord.update_queue hr job).1]
  rw [hold, hnew] at hcount
  rw [apply_of_get hget, liveIn, liveIn]
  cases hd : r.dst.isTerminal <;> by_cases hq : job.queue.asStr = q <;>
    simp_all

/-! ## Where a job stands -/

def place (store : MemoryStore) (id : JobId) : Option (JobState × String) :=
  (store.get id).map fun job => (job.state, job.queue.asStr)

theorem place_of_get {store : MemoryStore} {id : JobId} {job : JobRecord}
    (h : store.get id = some job) : store.place id = some (job.state, job.queue.asStr) := by
  simp [place, h]

theorem place_eq_some {store : MemoryStore} {id : JobId} {st : JobState} {q : String} :
    store.place id = some (st, q) ↔
      ∃ job, store.get id = some job ∧ job.state = st ∧ job.queue.asStr = q := by
  rw [place, Option.map_eq_some_iff]
  simp only [Prod.mk.injEq]

theorem place_submitted (store : MemoryStore) (id : JobId) (queue : QueueName)
    (spec : JobSpec) (createdAt : UnixMillis) (id' : JobId) :
    (store.applyRecordForRecovery (.jobSubmitted id queue spec createdAt)).place id' =
      if id' = id then some (.queued, queue.asStr) else store.place id' := by
  by_cases h : id' = id <;>
    simp [place, get_applyRecordForRecovery, WalRecord.jobId, WalRecord.effect, JobRecord.new, h]

theorem place_apply {store : MemoryStore} {r : WalRecord} {job : JobRecord}
    (hget : store.get r.jobId = some job) (hr : r.isSubmitted = false) (id : JobId) :
    (store.applyRecordForRecovery r).place id =
      if id = r.jobId then some (r.dst, job.queue.asStr) else store.place id := by
  simp only [place, get_applyRecordForRecovery]
  split
  · rename_i h
    rw [h, hget, WalRecord.effect_some]
    cases r <;> first | rfl | cases hr
  · rfl

theorem place_insert (store : MemoryStore) (id : JobId) (job : JobRecord) (id' : JobId) :
    MemoryStore.place (store.insert id job) id' =
      if id' = id then some (job.state, job.queue.asStr) else store.place id' := by
  simp only [place, HashMap.get_insert]
  split <;> rfl

/-! ## Replay -/

@[simp] theorem replay_nil (store : MemoryStore) : store.replay [] = store := rfl

theorem replay_append (store : MemoryStore) (log log' : List WalRecord) :
    store.replay (log ++ log') = (store.replay log).replay log' :=
  List.foldl_append

@[simp] theorem replay_snoc (store : MemoryStore) (log : List WalRecord) (r : WalRecord) :
    store.replay (log ++ [r]) = (store.replay log).applyRecordForRecovery r := by
  simp [replay]

theorem get_replay_of_ne {store : MemoryStore} {log : List WalRecord} {id : JobId}
    (h : ∀ r ∈ log, id ≠ r.jobId) : (store.replay log).get id = store.get id := by
  induction log using List.reverseRecOn with
  | nil => rfl
  | append_singleton log r ih =>
    rw [replay_snoc, get_applyRecordForRecovery, if_neg (h r (by simp))]
    exact ih (fun r' hr' => h r' (by simp [hr']))

theorem get_replay_of_mem {store : MemoryStore} {log : List WalRecord}
    (h : (log.map WalRecord.jobId).Nodup) {r : WalRecord} (hr : r ∈ log) :
    (store.replay log).get r.jobId = r.effect (store.get r.jobId) := by
  induction log using List.reverseRecOn with
  | nil => cases hr
  | append_singleton log r' ih =>
    rw [List.map_append, List.nodup_append] at h
    rw [replay_snoc, get_applyRecordForRecovery]
    rcases List.mem_append.mp hr with hr | hr
    · have hne : r.jobId ≠ r'.jobId :=
        h.2.2 r.jobId (List.mem_map.mpr ⟨r, hr, rfl⟩) r'.jobId (by simp)
      rw [if_neg hne]
      exact ih h.1 hr
    · rw [List.mem_singleton.mp hr, if_pos rfl, get_replay_of_ne]
      intro r'' hr'' heq
      exact h.2.2 r''.jobId (List.mem_map.mpr ⟨r'', hr'', rfl⟩) r'.jobId (by simp) heq.symm

/-- A live store and a replayed one agree, except that the live one may have moved a
waiting job back to its queue. -/
def UpToRequeue (live replayed : MemoryStore) : Prop :=
  ∀ id, Option.Rel
    (fun job job' => job' = job ∨
      job.state = .queued ∧ job' = { job with state := .retryWaiting })
    (live.get id) (replayed.get id)

namespace UpToRequeue

variable {live replayed : MemoryStore}

theorem refl (store : MemoryStore) : UpToRequeue store store := by
  intro id
  cases store.get id with
  | none => exact Option.Rel.none
  | some job => exact Option.Rel.some (Or.inl rfl)

theorem get_some (h : UpToRequeue live replayed) {id : JobId} {job : JobRecord}
    (hget : live.get id = some job) :
    replayed.get id = some job ∨
      job.state = .queued ∧ replayed.get id = some { job with state := .retryWaiting } := by
  have hid := h id
  rw [hget] at hid
  cases hr : replayed.get id with
  | none =>
    rw [hr] at hid
    cases hid
  | some job' =>
    rw [hr] at hid
    cases hid with
    | some hrel =>
      rcases hrel with rfl | ⟨hq, rfl⟩
      · exact Or.inl rfl
      · exact Or.inr ⟨hq, rfl⟩

theorem get_eq (h : UpToRequeue live replayed) {id : JobId} {job : JobRecord}
    (hget : live.get id = some job) (hstate : job.state ≠ .queued) :
    replayed.get id = some job := by
  rcases h.get_some hget with hr | ⟨hq, _⟩
  · exact hr
  · exact absurd hq hstate

theorem get_none (h : UpToRequeue live replayed) {id : JobId} :
    live.get id = none ↔ replayed.get id = none := by
  have hid := h id
  constructor
  · intro hl
    rw [hl] at hid
    cases hr : replayed.get id with
    | none => rfl
    | some => rw [hr] at hid; cases hid
  · intro hr
    rw [hr] at hid
    cases hl : live.get id with
    | none => rfl
    | some => rw [hl] at hid; cases hid

theorem place_queued (h : UpToRequeue live replayed) {id : JobId} {q : String}
    (hplace : replayed.place id = some (.queued, q)) : live.place id = some (.queued, q) := by
  cases hl : live.get id with
  | none =>
    rw [place, h.get_none.mp hl] at hplace
    cases hplace
  | some job =>
    rcases h.get_some hl with hr | ⟨_, hr⟩
    · rwa [place, hl, ← hr]
    · rw [place_of_get hr] at hplace
      cases hplace

theorem apply (h : UpToRequeue live replayed) (r : WalRecord) :
    UpToRequeue (live.applyRecordForRecovery r) (replayed.applyRecordForRecovery r) := by
  intro id
  rw [get_applyRecordForRecovery, get_applyRecordForRecovery]
  split
  · cases hl : live.get id with
    | none =>
      rw [h.get_none.mp hl]
      cases r <;> first | exact Option.Rel.none | exact Option.Rel.some (Or.inl rfl)
    | some job =>
      have hsame : r.effect (replayed.get id) = some (r.update job) := by
        rcases h.get_some hl with hr | ⟨_, hr⟩
        · rw [hr, WalRecord.effect_some]
        · rw [hr, WalRecord.effect_some, WalRecord.update_ignores_state]
      rw [WalRecord.effect_some, hsame]
      exact Option.Rel.some (Or.inl rfl)
  · exact h id

theorem requeue (h : UpToRequeue live replayed) {id : JobId} {job : JobRecord}
    (hget : live.get id = some job) (hstate : job.state = .retryWaiting) :
    UpToRequeue (live.insert id { job with state := .queued }) replayed := by
  intro id'
  rw [HashMap.get_insert]
  split
  · rename_i heq
    rw [heq, h.get_eq hget (by simp [hstate])]
    exact Option.Rel.some (Or.inr ⟨rfl, by simp [← hstate]⟩)
  · exact h id'

theorem liveIn_eq (h : UpToRequeue live replayed) (queue : String) :
    live.liveIn queue = replayed.liveIn queue := by
  apply HashMap.count_congr
  intro id
  cases hl : live.get id with
  | none => simp [h.get_none.mp hl]
  | some job =>
    rcases h.get_some hl with hr | ⟨hq, hr⟩
    · simp [hr]
    · simp [hr, JobRecord.isLive, hq, JobState.isTerminal]

end UpToRequeue

end MemoryStore

end DurableQueue
