import DurableQueue.Defs.Recovery
import DurableQueue.Defs.StoreLaws

/-! What recovery makes of a log in which no job is submitted twice. -/

namespace DurableQueue

namespace RecoveryTracker

def queuedIn (t : RecoveryTracker) (queue : String) : List JobId :=
  (t.queuedOrder.get queue).getD []

variable (t : RecoveryTracker)

theorem queuedIn_submitted (id : JobId) (queue : QueueName) (spec : JobSpec)
    (createdAt : UnixMillis) (q : String) :
    (t.trackRecord (.jobSubmitted id queue spec createdAt)).queuedIn q =
      if q = queue.asStr then t.queuedIn q ++ [id] else t.queuedIn q := by
  simp only [queuedIn, trackRecord, HashMap.upsert, HashMap.get_insert]
  split
  · rename_i h
    simp [h]
  · rfl

theorem queuedIn_unqueue (id : JobId) (q : String) :
    (t.unqueue id).queuedIn q =
      match t.submittedJobs.get id with
      | some (queue, _) =>
        if q = queue.asStr then (t.queuedIn q).filter (· ≠ id) else t.queuedIn q
      | none => t.queuedIn q := by
  simp only [queuedIn, unqueue]
  cases t.submittedJobs.get id with
  | none => rfl
  | some p =>
    simp only [HashMap.get_modify]
    split
    · rename_i h
      subst h
      cases t.queuedOrder.get p.1.asStr <;> simp
    · rfl

theorem queuedIn_trackRecord {r : WalRecord} (hr : r.isSubmitted = false) (q : String) :
    (t.trackRecord r).queuedIn q =
      if r.isRetryScheduled then t.queuedIn q else (t.unqueue r.jobId).queuedIn q := by
  cases r <;> first | rfl | cases hr

theorem runningJobs_other {r : WalRecord} {id : JobId} (h : id ≠ r.jobId) :
    (t.trackRecord r).runningJobs.get id = t.runningJobs.get id := by
  cases r <;> simp_all [trackRecord, finish, unqueue, HashMap.get_insert, HashMap.get_erase,
    WalRecord.jobId]

theorem retryWaiting_other {r : WalRecord} {id : JobId} (h : id ≠ r.jobId) :
    (t.trackRecord r).retryWaiting.get id = t.retryWaiting.get id := by
  cases r <;> simp_all [trackRecord, finish, unqueue, HashMap.get_insert, HashMap.get_erase,
    WalRecord.jobId]

theorem mem_queuedIn_other {r : WalRecord} {id : JobId} (h : id ≠ r.jobId) (q : String) :
    id ∈ (t.trackRecord r).queuedIn q ↔ id ∈ t.queuedIn q := by
  by_cases hr : r.isSubmitted
  · cases r with
    | jobSubmitted id' queue spec createdAt =>
      rw [queuedIn_submitted]
      split <;> simp_all [WalRecord.jobId]
    | jobLeased | jobRetryScheduled | jobCompleted | jobDead | jobCancelled => cases hr
  · rw [Bool.not_eq_true] at hr
    rw [queuedIn_trackRecord t hr, queuedIn_unqueue]
    split
    · rfl
    · split
      · split <;> simp [h]
      · rfl

end RecoveryTracker

structure Tracked (rs : List WalRecord) (s : ReplayState) : Prop where
  store : s.store = MemoryStore.replay .empty rs
  submitted : ∀ id, s.tracker.submittedJobs.get id =
    (s.store.get id).map fun job => (job.queue, job.spec.maxAttempts)
  running_last : ∀ id l a, s.tracker.runningJobs.get id = some (l, a) → lastLease rs id = some l
  running : ∀ id job, s.store.get id = some job → job.state = .running →
    (s.tracker.runningJobs.get id).isSome
  waiting_last : ∀ id t, s.tracker.retryWaiting.get id = some t → lastRetry rs id = some t
  waiting : ∀ id job, s.store.get id = some job → job.state = .retryWaiting →
    (s.tracker.retryWaiting.get id).isSome
  queued_from : ∀ q id, id ∈ s.tracker.queuedIn q →
    ∃ job, s.store.get id = some job ∧ job.queue.asStr = q
  queued_nodup : ∀ q, (s.tracker.queuedIn q).Nodup
  queued_order : ∀ q, (s.tracker.queuedIn q).Sublist (submittedIds rs)
  queued : ∀ id job, s.store.get id = some job → job.state = .queued →
    id ∈ s.tracker.queuedIn job.queue.asStr
  maxLeaseEpoch : s.tracker.maxLeaseEpoch = maxEpoch rs
  ids : ∀ id, id ∈ submittedIds rs ↔ (s.store.get id).isSome
  counted : s.submitted = rs.countP (·.isSubmitted) ∧ s.completed = rs.countP (·.isCompleted) ∧
    s.dead = rs.countP (·.isDead) ∧ s.cancelled = rs.countP (·.isCancelled) ∧
    s.retried = rs.countP (·.isRetryScheduled)

theorem tracked_new : Tracked [] .new := by
  constructor <;>
    simp [ReplayState.new, RecoveryTracker.new, RecoveryTracker.queuedIn, maxEpoch, submittedIds]

namespace Tracked

variable {rs : List WalRecord} {s : ReplayState} {r : WalRecord}

theorem get_replayRecord (s : ReplayState) (r : WalRecord) (id : JobId) :
    (s.replayRecord r).store.get id =
      if id = r.jobId then r.effect (s.store.get id) else s.store.get id :=
  MemoryStore.get_applyRecordForRecovery ..

theorem get_cases {id : JobId} {job : JobRecord}
    (hget : (s.replayRecord r).store.get id = some job) :
    id ≠ r.jobId ∧ s.store.get id = some job ∨ id = r.jobId ∧ job.state = r.dst :=
  MemoryStore.get_apply_cases hget

theorem unqueued (h : Tracked rs s) {id : JobId} (q : String) :
    id ∉ (s.tracker.unqueue id).queuedIn q := by
  rw [RecoveryTracker.queuedIn_unqueue, h.submitted]
  cases hget : s.store.get id with
  | none =>
    intro hmem
    obtain ⟨job, hjob, _⟩ := h.queued_from q id hmem
    rw [hget] at hjob
    cases hjob
  | some job =>
    simp only [Option.map_some]
    split
    · simp
    · rename_i hne
      intro hmem
      obtain ⟨job', hjob, hq⟩ := h.queued_from q id hmem
      rw [hget] at hjob
      cases hjob
      exact hne hq.symm

theorem snoc_submitted (h : Tracked rs s) :
    ∀ id, (s.replayRecord r).tracker.submittedJobs.get id =
      ((s.replayRecord r).store.get id).map fun job => (job.queue, job.spec.maxAttempts) := by
  intro id
  rw [get_replayRecord]
  have hold := h.submitted id
  cases r with
  | jobSubmitted id' queue spec createdAt =>
    change (s.tracker.submittedJobs.insert id' _).get id = _
    rw [HashMap.get_insert]
    by_cases heq : id = id'
    · simp [WalRecord.jobId, heq, WalRecord.effect, JobRecord.new]
    · simp [WalRecord.jobId, heq, hold]
  | jobLeased | jobRetryScheduled | jobCompleted | jobDead | jobCancelled =>
    change s.tracker.submittedJobs.get id = _
    rw [hold]
    split
    · cases s.store.get id <;> rfl
    · rfl

theorem snoc_running_last (h : Tracked rs s) :
    ∀ id l a, (s.replayRecord r).tracker.runningJobs.get id = some (l, a) →
      lastLease (rs ++ [r]) id = some l := by
  intro id l a hget
  by_cases heq : id = r.jobId
  · subst heq
    cases r with
    | jobLeased =>
      simp_all [ReplayState.replayRecord, RecoveryTracker.trackRecord, RecoveryTracker.unqueue,
        WalRecord.leaseFor, WalRecord.jobId]
    | jobSubmitted =>
      simpa [WalRecord.leaseFor] using h.running_last _ l a hget
    | jobRetryScheduled | jobCompleted | jobDead | jobCancelled =>
      simp [ReplayState.replayRecord, RecoveryTracker.trackRecord, RecoveryTracker.finish,
        RecoveryTracker.unqueue, WalRecord.jobId] at hget
  · rw [lastLease_snoc, WalRecord.leaseFor_other heq, Option.none_or]
    rw [ReplayState.replayRecord, RecoveryTracker.runningJobs_other _ heq] at hget
    exact h.running_last id l a hget

theorem running_step (h : ∀ id job, s.store.get id = some job → job.state = .running →
      (s.tracker.runningJobs.get id).isSome) :
    ∀ id job, (s.replayRecord r).store.get id = some job → job.state = .running →
      ((s.replayRecord r).tracker.runningJobs.get id).isSome := by
  intro id job hget hstate
  rcases get_cases hget with ⟨hne, hold⟩ | ⟨rfl, hdst⟩
  · rw [ReplayState.replayRecord, RecoveryTracker.runningJobs_other _ hne]
    exact h id job hold hstate
  · rw [hstate] at hdst
    cases r with
    | jobLeased =>
      simp [ReplayState.replayRecord, RecoveryTracker.trackRecord, RecoveryTracker.unqueue,
        WalRecord.jobId]
    | jobSubmitted | jobRetryScheduled | jobCompleted | jobDead | jobCancelled => cases hdst

theorem snoc_waiting_last (h : Tracked rs s) :
    ∀ id t, (s.replayRecord r).tracker.retryWaiting.get id = some t →
      lastRetry (rs ++ [r]) id = some t := by
  intro id t hget
  by_cases heq : id = r.jobId
  · subst heq
    cases r with
    | jobRetryScheduled =>
      simp_all [ReplayState.replayRecord, RecoveryTracker.trackRecord, WalRecord.retryFor,
        WalRecord.jobId]
    | jobSubmitted =>
      simpa [WalRecord.retryFor] using h.waiting_last _ t hget
    | jobLeased | jobCompleted | jobDead | jobCancelled =>
      simp [ReplayState.replayRecord, RecoveryTracker.trackRecord, RecoveryTracker.finish,
        RecoveryTracker.unqueue, WalRecord.jobId] at hget
  · rw [lastRetry_snoc, WalRecord.retryFor_other heq, Option.none_or]
    rw [ReplayState.replayRecord, RecoveryTracker.retryWaiting_other _ heq] at hget
    exact h.waiting_last id t hget

theorem snoc_waiting (h : Tracked rs s) :
    ∀ id job, (s.replayRecord r).store.get id = some job → job.state = .retryWaiting →
      ((s.replayRecord r).tracker.retryWaiting.get id).isSome := by
  intro id job hget hstate
  rcases get_cases hget with ⟨hne, hold⟩ | ⟨rfl, hdst⟩
  · rw [ReplayState.replayRecord, RecoveryTracker.retryWaiting_other _ hne]
    exact h.waiting id job hold hstate
  · rw [hstate] at hdst
    cases r with
    | jobRetryScheduled =>
      simp [ReplayState.replayRecord, RecoveryTracker.trackRecord, WalRecord.jobId]
    | jobSubmitted | jobLeased | jobCompleted | jobDead | jobCancelled => cases hdst

theorem snoc_queued_from (h : Tracked rs s)
    (hfresh : r.isSubmitted = true → s.store.get r.jobId = none) :
    ∀ q id, id ∈ (s.replayRecord r).tracker.queuedIn q →
      ∃ job, (s.replayRecord r).store.get id = some job ∧ job.queue.asStr = q := by
  intro q id hmem
  by_cases heq : id = r.jobId
  · by_cases hr : r.isSubmitted
    · have hnone := hfresh hr
      cases r with
      | jobSubmitted id' queue spec createdAt =>
        subst heq
        change _ ∈ (s.tracker.trackRecord _).queuedIn q at hmem
        rw [RecoveryTracker.queuedIn_submitted] at hmem
        split at hmem
        · rename_i hq
          exact ⟨_, (get_replayRecord ..).trans (if_pos rfl), hq.symm⟩
        · obtain ⟨job, hjob, _⟩ := h.queued_from q _ hmem
          exact absurd (hnone.symm.trans hjob) (by simp)
      | jobLeased | jobRetryScheduled | jobCompleted | jobDead | jobCancelled => cases hr
    · rw [Bool.not_eq_true] at hr
      change _ ∈ (s.tracker.trackRecord _).queuedIn q at hmem
      rw [RecoveryTracker.queuedIn_trackRecord _ hr] at hmem
      split at hmem
      · obtain ⟨job, hjob, hq⟩ := h.queued_from q id hmem
        refine ⟨r.update job, ?_, by rw [(WalRecord.update_queue hr job).1]; exact hq⟩
        rw [get_replayRecord, if_pos heq, hjob, WalRecord.effect_some]
      · subst heq
        exact absurd hmem (h.unqueued q)
  · change _ ∈ (s.tracker.trackRecord _).queuedIn q at hmem
    rw [RecoveryTracker.mem_queuedIn_other _ heq] at hmem
    obtain ⟨job, hjob, hq⟩ := h.queued_from q id hmem
    exact ⟨job, by rw [get_replayRecord, if_neg heq, hjob], hq⟩

theorem snoc_queued_nodup (h : Tracked rs s)
    (hfresh : r.isSubmitted = true → s.store.get r.jobId = none) :
    ∀ q, ((s.replayRecord r).tracker.queuedIn q).Nodup := by
  intro q
  change ((s.tracker.trackRecord r).queuedIn q).Nodup
  by_cases hr : r.isSubmitted
  · have hnone := hfresh hr
    cases r with
    | jobSubmitted id' queue spec createdAt =>
      rw [RecoveryTracker.queuedIn_submitted]
      split
      · refine (h.queued_nodup q).append (List.nodup_singleton _) ?_
        rw [List.disjoint_singleton]
        intro hmem
        obtain ⟨job, hjob, _⟩ := h.queued_from q _ hmem
        exact absurd (hnone.symm.trans hjob) (by simp)
      · exact h.queued_nodup q
    | jobLeased | jobRetryScheduled | jobCompleted | jobDead | jobCancelled => cases hr
  · rw [Bool.not_eq_true] at hr
    rw [RecoveryTracker.queuedIn_trackRecord _ hr, RecoveryTracker.queuedIn_unqueue]
    have hold := h.queued_nodup q
    split
    · exact hold
    · split
      · split
        · exact hold.filter _
        · exact hold
      · exact hold

theorem snoc_queued_order (h : Tracked rs s) :
    ∀ q, ((s.replayRecord r).tracker.queuedIn q).Sublist (submittedIds (rs ++ [r])) := by
  intro q
  change ((s.tracker.trackRecord r).queuedIn q).Sublist _
  have hold := h.queued_order q
  rw [submittedIds_snoc]
  by_cases hr : r.isSubmitted
  · cases r with
    | jobSubmitted id' queue spec createdAt =>
      rw [RecoveryTracker.queuedIn_submitted, if_pos hr]
      split
      · exact hold.append (List.Sublist.refl _)
      · exact hold.trans (List.sublist_append_left _ _)
    | jobLeased | jobRetryScheduled | jobCompleted | jobDead | jobCancelled => cases hr
  · rw [if_neg hr, List.append_nil]
    rw [Bool.not_eq_true] at hr
    rw [RecoveryTracker.queuedIn_trackRecord _ hr, RecoveryTracker.queuedIn_unqueue]
    split
    · exact hold
    · split
      · split
        · exact List.filter_sublist.trans hold
        · exact hold
      · exact hold

theorem snoc_queued (h : Tracked rs s) :
    ∀ id job, (s.replayRecord r).store.get id = some job → job.state = .queued →
      id ∈ (s.replayRecord r).tracker.queuedIn job.queue.asStr := by
  intro id job hget hstate
  rcases get_cases hget with ⟨hne, hold⟩ | ⟨heq, hdst⟩
  · exact (RecoveryTracker.mem_queuedIn_other _ hne _).mpr (h.queued id job hold hstate)
  · rw [hstate] at hdst
    cases r with
    | jobSubmitted id' queue spec createdAt =>
      subst heq
      simp only [get_replayRecord, WalRecord.jobId, if_true, WalRecord.effect,
        Option.some.injEq] at hget
      subst hget
      change _ ∈ (s.tracker.trackRecord _).queuedIn queue.asStr
      rw [RecoveryTracker.queuedIn_submitted, if_pos rfl]
      simp
    | jobLeased | jobRetryScheduled | jobCompleted | jobDead | jobCancelled => cases hdst

theorem snoc_maxLeaseEpoch (h : Tracked rs s) :
    (s.replayRecord r).tracker.maxLeaseEpoch = maxEpoch (rs ++ [r]) := by
  rw [maxEpoch_append_singleton, ← h.maxLeaseEpoch]
  cases r <;> simp [ReplayState.replayRecord, RecoveryTracker.trackRecord,
    RecoveryTracker.finish, RecoveryTracker.unqueue, WalRecord.leasedEpoch, max_zero_epoch]

theorem snoc_ids (h : Tracked rs s) :
    ∀ id, id ∈ submittedIds (rs ++ [r]) ↔ ((s.replayRecord r).store.get id).isSome := by
  intro id
  rw [submittedIds_snoc, List.mem_append, h.ids, get_replayRecord]
  by_cases heq : id = r.jobId
  · cases r <;> cases s.store.get id <;>
      simp_all [WalRecord.isSubmitted, WalRecord.effect, WalRecord.jobId]
  · rw [if_neg heq]
    split <;> simp [heq]

theorem fresh (h : Tracked rs s) (hnodup : (submittedIds (rs ++ [r])).Nodup)
    (hr : r.isSubmitted = true) : s.store.get r.jobId = none := by
  rw [submittedIds_snoc, hr, if_pos rfl] at hnodup
  have hnot : r.jobId ∉ submittedIds rs := fun hmem =>
    (List.nodup_append.mp hnodup).2.2 r.jobId hmem r.jobId (by simp) rfl
  rw [h.ids, Option.not_isSome_iff_eq_none] at hnot
  exact hnot

theorem snoc (h : Tracked rs s) (hnodup : (submittedIds (rs ++ [r])).Nodup) :
    Tracked (rs ++ [r]) (s.replayRecord r) where
  store := by rw [MemoryStore.replay_snoc, ← h.store]; rfl
  submitted := h.snoc_submitted
  running_last := h.snoc_running_last
  running := running_step h.running
  waiting_last := h.snoc_waiting_last
  waiting := h.snoc_waiting
  queued_from := h.snoc_queued_from (h.fresh hnodup)
  queued_nodup := h.snoc_queued_nodup (h.fresh hnodup)
  queued_order := h.snoc_queued_order
  queued := h.snoc_queued
  maxLeaseEpoch := h.snoc_maxLeaseEpoch
  ids := h.snoc_ids
  counted := by
    obtain ⟨hsubmitted, hcompleted, hdead, hcancelled, hretried⟩ := h.counted
    refine ⟨?_, ?_, ?_, ?_, ?_⟩ <;> rw [List.countP_append]
    · rw [← hsubmitted]
      cases r <;> rfl
    · rw [← hcompleted]
      cases r <;> rfl
    · rw [← hdead]
      cases r <;> rfl
    · rw [← hcancelled]
      cases r <;> rfl
    · rw [← hretried]
      cases r <;> rfl

end Tracked

theorem store_replay (rs : List WalRecord) :
    (rs.foldl ReplayState.replayRecord .new).store = MemoryStore.replay .empty rs := by
  induction rs using List.reverseRecOn with
  | nil => rfl
  | append_singleton rs r ih =>
    rw [List.foldl_append, MemoryStore.replay_snoc, ← ih]
    rfl

theorem running_replay (rs : List WalRecord) :
    ∀ id job, (rs.foldl ReplayState.replayRecord .new).store.get id = some job →
      job.state = .running →
      ((rs.foldl ReplayState.replayRecord .new).tracker.runningJobs.get id).isSome := by
  induction rs using List.reverseRecOn with
  | nil => exact tracked_new.running
  | append_singleton rs r ih =>
    rw [List.foldl_append]
    exact Tracked.running_step ih

theorem tracked_replay {rs : List WalRecord} (h : (submittedIds rs).Nodup) :
    Tracked rs (rs.foldl ReplayState.replayRecord .new) := by
  induction rs using List.reverseRecOn with
  | nil => exact tracked_new
  | append_singleton rs r ih =>
    rw [List.foldl_append]
    have hrs : (submittedIds rs).Nodup := by
      rw [submittedIds_append] at h
      exact (List.nodup_append.mp h).1
    exact (ih hrs).snoc h

/-! ## Reconciliation -/

def reconciliation (now : UnixMillis) (leaseId : LeaseId) (job : JobRecord) (id : JobId) :
    WalRecord :=
  if job.attempts < job.spec.maxAttempts then .jobRetryScheduled id leaseId job.attempts now
  else .jobDead id leaseId now

def JobRecord.reconciled (job : JobRecord) : JobRecord :=
  if job.state = .running then
    { job with state := if job.attempts < job.spec.maxAttempts then .retryWaiting else .dead }
  else job

theorem reconciliation_cases (now : UnixMillis) (leaseId : LeaseId) (job : JobRecord)
    (id : JobId) :
    reconciliation now leaseId job id = .jobRetryScheduled id leaseId job.attempts now ∨
      reconciliation now leaseId job id = .jobDead id leaseId now := by
  unfold reconciliation
  split <;> simp

@[simp] theorem jobId_reconciliation (now : UnixMillis) (leaseId : LeaseId) (job : JobRecord)
    (id : JobId) : (reconciliation now leaseId job id).jobId = id := by
  rcases reconciliation_cases now leaseId job id with h | h <;> rw [h] <;> rfl

@[simp] theorem isSubmitted_reconciliation (now : UnixMillis) (leaseId : LeaseId)
    (job : JobRecord) (id : JobId) : (reconciliation now leaseId job id).isSubmitted = false := by
  rcases reconciliation_cases now leaseId job id with h | h <;> rw [h] <;> rfl

theorem update_reconciliation (now : UnixMillis) (leaseId : LeaseId) {job : JobRecord}
    (id : JobId) (h : job.state = .running) :
    (reconciliation now leaseId job id).update job = job.reconciled := by
  unfold reconciliation JobRecord.reconciled
  rw [if_pos h]
  split <;> rfl

theorem JobRecord.reconciled_state (job : JobRecord) : job.reconciled.state ≠ .running := by
  unfold reconciled
  split
  · simp only
    split <;> simp
  · assumption

variable {env : RecoverEnv} {rs : List WalRecord} {s : ReplayState}

theorem mem_reconcileRunningJobs {store : MemoryStore} {tracker : RecoveryTracker}
    {r : WalRecord} :
    r ∈ reconcileRunningJobs env store tracker ↔
      ∃ id l a job, tracker.runningJobs.get id = some (l, a) ∧ store.get id = some job ∧
        job.state = .running ∧ r = reconciliation env.now l job id := by
  simp only [reconcileRunningJobs, List.mem_filterMap, Prod.exists, IterOrder.mem_arrange,
    HashMap.mem_toList]
  constructor
  · rintro ⟨id, l, a, hrun, hr⟩
    cases hget : store.get id with
    | none => simp [hget] at hr
    | some job =>
      simp only [hget, ne_eq, ite_not] at hr
      split at hr
      · rename_i hstate
        refine ⟨id, l, a, job, hrun, hget, hstate, ?_⟩
        unfold reconciliation
        split at hr <;> simp_all
      · cases hr
  · rintro ⟨id, l, a, job, hrun, hget, hstate, rfl⟩
    refine ⟨id, l, a, hrun, ?_⟩
    simp only [hget, hstate, ne_eq, not_true_eq_false, if_false, reconciliation]
    split <;> rfl

theorem reconcileRunningJobs_nodup (store : MemoryStore) (tracker : RecoveryTracker) :
    ((reconcileRunningJobs env store tracker).map WalRecord.jobId).Nodup := by
  have hkeys : (((env.order 0).arrange tracker.runningJobs.toList).map Prod.fst).Nodup :=
    (IterOrder.nodup_map_arrange _).mpr (HashMap.nodup_keys_toList tracker.runningJobs)
  refine hkeys.sublist (map_filterMap_sublist ?_ _)
  rintro ⟨id, l, a⟩ r hr
  simp only at hr
  repeat' split at hr
  all_goals cases hr
  all_goals rfl

/-- The second loop does what the first would do. -/
theorem reconcileRecord_eq (s : ReplayState) {r : WalRecord}
    (h : r.isRetryScheduled ∨ r.isDead) : s.reconcileRecord r = s.replayRecord r := by
  cases r <;> simp_all [WalRecord.isRetryScheduled, WalRecord.isDead,
    ReplayState.reconcileRecord, ReplayState.replayRecord, WalRecord.isSubmitted,
    WalRecord.isCompleted, WalRecord.isCancelled]

theorem foldl_reconcileRecord (store : MemoryStore) (tracker : RecoveryTracker)
    (s : ReplayState) :
    (reconcileRunningJobs env store tracker).foldl ReplayState.reconcileRecord s =
      (reconcileRunningJobs env store tracker).foldl ReplayState.replayRecord s := by
  apply List.foldl_ext
  intro s' r hr
  obtain ⟨id, l, a, job, _, _, _, rfl⟩ := mem_reconcileRunningJobs.mp hr
  apply reconcileRecord_eq
  rcases reconciliation_cases env.now l job id with h | h <;>
    simp [h, WalRecord.isRetryScheduled, WalRecord.isDead]

theorem submittedIds_of_none {rs : List WalRecord} (h : ∀ r ∈ rs, r.isSubmitted = false) :
    submittedIds rs = [] := by
  induction rs using List.reverseRecOn with
  | nil => rfl
  | append_singleton rs r ih =>
    rw [submittedIds_snoc, ih (fun r' hr' => h r' (by simp [hr'])), h r (by simp)]
    simp

theorem submittedIds_reconcileRunningJobs (store : MemoryStore) (tracker : RecoveryTracker) :
    submittedIds (reconcileRunningJobs env store tracker) = [] := by
  apply submittedIds_of_none
  intro r hr
  obtain ⟨id, l, a, job, _, _, _, rfl⟩ := mem_reconcileRunningJobs.mp hr
  simp

def reconciliationOf (env : RecoverEnv) (rs : List WalRecord) : List WalRecord :=
  let s := rs.foldl ReplayState.replayRecord .new
  reconcileRunningJobs env s.store s.tracker

theorem submittedIds_reconciled (env : RecoverEnv) (rs : List WalRecord) :
    submittedIds (rs ++ reconciliationOf env rs) = submittedIds rs := by
  rw [submittedIds_append, reconciliationOf, submittedIds_reconcileRunningJobs, List.append_nil]

theorem tracked_reconciled (env : RecoverEnv) (h : (submittedIds rs).Nodup) :
    Tracked (rs ++ reconciliationOf env rs)
      ((reconciliationOf env rs).foldl ReplayState.reconcileRecord
        (rs.foldl ReplayState.replayRecord .new)) := by
  rw [reconciliationOf, foldl_reconcileRecord, ← List.foldl_append]
  exact tracked_replay (by rw [← reconciliationOf, submittedIds_reconciled]; exact h)

theorem mem_reconciliationOf {env : RecoverEnv} {rs : List WalRecord} {id : JobId} :
    id ∈ (reconciliationOf env rs).map WalRecord.jobId ↔
      ∃ job, (MemoryStore.replay .empty rs).get id = some job ∧ job.state = .running := by
  rw [List.mem_map]
  constructor
  · rintro ⟨r, hr, rfl⟩
    obtain ⟨id, l, a, job, _, hget, hstate, rfl⟩ := mem_reconcileRunningJobs.mp hr
    rw [store_replay] at hget
    rw [jobId_reconciliation]
    exact ⟨job, hget, hstate⟩
  · rintro ⟨job, hget, hstate⟩
    rw [← store_replay] at hget
    obtain ⟨⟨l, a⟩, hl⟩ := Option.isSome_iff_exists.mp (running_replay rs id job hget hstate)
    exact ⟨_, mem_reconcileRunningJobs.mpr ⟨id, l, a, job, hl, hget, hstate, rfl⟩,
      jobId_reconciliation ..⟩

/-- Reconciliation acts on each job by itself: what was running is scheduled again or dead. -/
theorem get_replay_reconciled (id : JobId) :
    (MemoryStore.replay .empty (rs ++ reconciliationOf env rs)).get id =
      ((MemoryStore.replay .empty rs).get id).map JobRecord.reconciled := by
  rw [MemoryStore.replay_append]
  by_cases hmem : ∃ r ∈ reconciliationOf env rs, r.jobId = id
  · obtain ⟨r, hr, rfl⟩ := hmem
    have hnodup : ((reconciliationOf env rs).map WalRecord.jobId).Nodup :=
      reconcileRunningJobs_nodup _ _
    rw [MemoryStore.get_replay_of_mem hnodup hr]
    obtain ⟨id, l, a, job, _, hget, hstate, rfl⟩ := mem_reconcileRunningJobs.mp hr
    rw [store_replay] at hget
    rw [jobId_reconciliation, hget, WalRecord.effect_some, update_reconciliation _ _ _ hstate]
    rfl
  · rw [MemoryStore.get_replay_of_ne (fun r hr heq => hmem ⟨r, hr, heq.symm⟩)]
    cases hget : (MemoryStore.replay .empty rs).get id with
    | none => rfl
    | some job =>
      have hstate : job.state ≠ .running := fun hrun =>
        hmem (List.mem_map.mp (mem_reconciliationOf.mpr ⟨job, hget, hrun⟩))
      simp [JobRecord.reconciled, hstate]

end DurableQueue
