import DurableQueue.Defs.RecoveryLaws

/-! The state a recovery returns, and its validation against the configuration. -/

namespace DurableQueue

structure ListsJobs (store : MemoryStore) (queuedJobs : HashMap String (List JobId))
    (retryJobs : List (JobId × UnixMillis)) : Prop where
  queued_nodup : ∀ q ids, queuedJobs.get q = some ids → ids.Nodup
  queued_nonempty : ∀ q ids, queuedJobs.get q = some ids → ids ≠ []
  queued : ∀ q id, id ∈ (queuedJobs.get q).getD [] ↔ store.place id = some (.queued, q)
  retry_nodup : (retryJobs.map Prod.fst).Nodup
  retry : ∀ id, id ∈ retryJobs.map Prod.fst ↔ ∃ q, store.place id = some (.retryWaiting, q)
  settled : ∀ id q, store.place id ≠ some (.running, q)

/-- The live jobs all belong to configured queues, and no queue has too many. -/
structure Fits (config : RuntimeConfig) (store : MemoryStore) : Prop where
  configured : ∀ id st q, store.place id = some (st, q) → st.isTerminal = false →
    (config.capacity q).isSome
  capacity : ∀ q c, config.capacity q = some c → store.liveIn q ≤ c

/-! ## Counting live jobs -/

def liveBatches (order : IterOrder) (store : MemoryStore)
    (queuedJobs : HashMap String (List JobId)) (retryJobs : List (JobId × UnixMillis)) :
    List (String × Nat) :=
  ((order.arrange queuedJobs.toList).map fun (queue, jobIds) => (queue, jobIds.length)) ++
    retryJobs.filterMap fun (id, _) => (store.get id).map fun job => (job.queue.asStr, 1)

def batchTotal (q : String) (batches : List (String × Nat)) : Nat :=
  ((batches.filter fun p => p.1 = q).map Prod.snd).sum

theorem batchTotal_append (q : String) (l l' : List (String × Nat)) :
    batchTotal q (l ++ l') = batchTotal q l + batchTotal q l' := by
  simp [batchTotal]

theorem batchTotal_queued (order : IterOrder) (queuedJobs : HashMap String (List JobId))
    (q : String) :
    batchTotal q ((order.arrange queuedJobs.toList).map fun (queue, jobIds) =>
      (queue, jobIds.length)) = ((queuedJobs.get q).getD []).length := by
  have hperm := ((order.arrange_perm queuedJobs.toList).filter fun p => p.1 = q).map
    fun p => p.2.length
  rw [HashMap.filter_key_toList] at hperm
  rw [batchTotal, List.filter_map, List.map_map]
  refine hperm.sum_eq.trans ?_
  cases queuedJobs.get q <;> simp

def retryingIn (store : MemoryStore) (retryJobs : List (JobId × UnixMillis)) (q : String) :
    List JobId :=
  (retryJobs.map Prod.fst).filter fun id => (store.get id).any (·.queue.asStr = q)

theorem batchTotal_retrying (store : MemoryStore) (retryJobs : List (JobId × UnixMillis))
    (q : String) :
    batchTotal q (retryJobs.filterMap fun (id, _) =>
      (store.get id).map fun job => (job.queue.asStr, 1)) =
        (retryingIn store retryJobs q).length := by
  induction retryJobs with
  | nil => rfl
  | cons p retryJobs ih =>
    simp only [batchTotal, retryingIn] at ih
    simp only [batchTotal, retryingIn, List.map_cons, List.filterMap_cons, List.filter_cons]
    cases store.get p.1 with
    | none => simpa using ih
    | some job =>
      by_cases hq : job.queue.asStr = q
      · simp [hq, ih, Nat.add_comm]
      · simpa [hq] using ih

namespace ListsJobs

variable {store : MemoryStore} {queuedJobs : HashMap String (List JobId)}
  {retryJobs : List (JobId × UnixMillis)}

theorem filter_queued (h : ListsJobs store queuedJobs retryJobs) {q : String} {ids : List JobId}
    (hget : queuedJobs.get q = some ids) :
    ids.filter (fun id => (store.get id).any (·.state = .queued)) = ids := by
  rw [List.filter_eq_self]
  intro id hid
  have hplace := (h.queued q id).mp (by rw [hget]; exact hid)
  obtain ⟨job, hjob, hstate, _⟩ := MemoryStore.place_eq_some.mp hplace
  simp [hjob, hstate]

theorem get_retry (h : ListsJobs store queuedJobs retryJobs) {p : JobId × UnixMillis}
    (hp : p ∈ retryJobs) : ∃ job, store.get p.1 = some job ∧ job.state = .retryWaiting := by
  obtain ⟨q, hplace⟩ := (h.retry p.1).mp (List.mem_map.mpr ⟨p, hp, rfl⟩)
  obtain ⟨job, hjob, hstate, _⟩ := MemoryStore.place_eq_some.mp hplace
  exact ⟨job, hjob, hstate⟩

theorem mem_retryingIn (h : ListsJobs store queuedJobs retryJobs) (q : String) (id : JobId) :
    id ∈ retryingIn store retryJobs q ↔ store.place id = some (.retryWaiting, q) := by
  rw [retryingIn, List.mem_filter, h.retry]
  cases hget : store.get id with
  | none => simp [MemoryStore.place, hget]
  | some job => simp [MemoryStore.place, hget]

theorem batchTotal_eq (h : ListsJobs store queuedJobs retryJobs) (order : IterOrder)
    (q : String) :
    batchTotal q (liveBatches order store queuedJobs retryJobs) = store.liveIn q := by
  rw [liveBatches, batchTotal_append, batchTotal_queued, batchTotal_retrying,
    ← List.length_append]
  have hqueued : ((queuedJobs.get q).getD []).Nodup := by
    cases hget : queuedJobs.get q with
    | none => exact List.nodup_nil
    | some ids => exact h.queued_nodup q ids hget
  apply HashMap.length_eq_count
  · refine hqueued.append (h.retry_nodup.filter _) ?_
    intro id hid hid'
    rw [h.queued] at hid
    have hid' := (h.mem_retryingIn q id).mp hid'
    rw [hid] at hid'
    cases hid'
  · intro id
    rw [List.mem_append, h.queued, h.mem_retryingIn]
    have hsettled := h.settled id q
    cases hget : store.get id with
    | none => simp [MemoryStore.place, hget]
    | some job =>
      rw [MemoryStore.place_of_get hget] at hsettled ⊢
      cases hstate : job.state <;>
        simp_all [JobRecord.isLive, JobState.isTerminal]

theorem exists_batch (h : ListsJobs store queuedJobs retryJobs) (order : IterOrder)
    (q : String) :
    (∃ n, (q, n) ∈ liveBatches order store queuedJobs retryJobs) ↔
      ∃ id st, store.place id = some (st, q) ∧ st.isTerminal = false := by
  constructor
  · rintro ⟨n, hn⟩
    rcases List.mem_append.mp hn with hn | hn
    · obtain ⟨⟨q', ids⟩, hmem, heq⟩ := List.mem_map.mp hn
      rw [IterOrder.mem_arrange, HashMap.mem_toList] at hmem
      cases heq
      obtain ⟨id, hid⟩ := List.exists_mem_of_ne_nil ids (h.queued_nonempty _ _ hmem)
      exact ⟨id, .queued, (h.queued q id).mp (by rw [hmem]; exact hid), rfl⟩
    · obtain ⟨⟨id, t⟩, hmem, heq⟩ := List.mem_filterMap.mp hn
      obtain ⟨q', hplace⟩ := (h.retry id).mp (List.mem_map.mpr ⟨_, hmem, rfl⟩)
      obtain ⟨job, hget, hq⟩ := Option.map_eq_some_iff.mp heq
      cases hq
      rw [MemoryStore.place_of_get hget] at hplace
      refine ⟨id, .retryWaiting, ?_, rfl⟩
      rw [MemoryStore.place_of_get hget, (Prod.mk.inj (Option.some.inj hplace)).1]
  · rintro ⟨id, st, hplace, hst⟩
    cases st with
    | queued =>
      have hid := (h.queued q id).mpr hplace
      cases hget : queuedJobs.get q with
      | none =>
        rw [hget] at hid
        cases hid
      | some ids =>
        refine ⟨ids.length, List.mem_append_left _ (List.mem_map.mpr ⟨(q, ids), ?_, rfl⟩)⟩
        rw [IterOrder.mem_arrange, HashMap.mem_toList]
        exact hget
    | retryWaiting =>
      obtain ⟨⟨id', t⟩, hmem, rfl⟩ := List.mem_map.mp ((h.retry id).mpr ⟨q, hplace⟩)
      obtain ⟨job, hget, _, hq⟩ := MemoryStore.place_eq_some.mp hplace
      refine ⟨1, List.mem_append_right _ (List.mem_filterMap.mpr ⟨_, hmem, ?_⟩)⟩
      simp [hget, hq]
    | running => exact absurd hplace (h.settled id q)
    | completed | dead | cancelled => cases hst

end ListsJobs

/-! ## Validation -/

theorem countLive_ok {config : RuntimeConfig} {l : List (String × Nat)}
    {live live' : HashMap String Nat} :
    countLive config l live = .ok live' ↔ (∀ p ∈ l, (config.capacity p.1).isSome) ∧
      live' = l.foldl (fun m p => m.upsert p.1 0 (· + p.2)) live := by
  induction l generalizing live with
  | nil =>
    rw [countLive, Except.ok.injEq, List.foldl_nil]
    exact ⟨fun h => ⟨by simp, h.symm⟩, fun h => h.2.symm⟩
  | cons p l ih =>
    rw [countLive, List.foldl_cons, List.forall_mem_cons]
    cases hcap : config.capacity p.1 with
    | none => simp
    | some c => simpa using ih

theorem countLive_append (config : RuntimeConfig) (l l' : List (String × Nat))
    (live : HashMap String Nat) :
    countLive config (l ++ l') live =
      (countLive config l live).bind (countLive config l') := by
  induction l generalizing live with
  | nil => rfl
  | cons p l ih =>
    rw [List.cons_append, countLive, countLive]
    split
    · rfl
    · exact ih _

theorem checkCapacity_ok {config : RuntimeConfig} {l : List (String × Nat)} :
    checkCapacity config l = .ok () ↔
      ∀ p ∈ l, ∀ c, config.capacity p.1 = some c → p.2 ≤ c := by
  induction l with
  | nil => simp [checkCapacity]
  | cons p l ih =>
    rw [checkCapacity, List.forall_mem_cons]
    cases hcap : config.capacity p.1 with
    | none => simpa using ih
    | some c =>
      by_cases hle : p.2 ≤ c
      · simpa [hle, Nat.not_lt.mpr hle] using ih
      · simp [hle, Nat.not_le.mp hle]

theorem checkCapacity_arrange_ok {config : RuntimeConfig} {order : IterOrder}
    {live : HashMap String Nat} :
    checkCapacity config (order.arrange live.toList) = .ok () ↔
      ∀ q c, config.capacity q = some c → (live.get q).getD 0 ≤ c := by
  rw [checkCapacity_ok]
  constructor
  · intro h q c hc
    cases hget : live.get q with
    | none => exact Nat.zero_le c
    | some n =>
      have hmem : (q, n) ∈ order.arrange live.toList := by
        rw [IterOrder.mem_arrange, HashMap.mem_toList]
        exact hget
      exact h (q, n) hmem c hc
  · rintro h ⟨q, n⟩ hmem c hc
    rw [IterOrder.mem_arrange, HashMap.mem_toList] at hmem
    have hle := h q c hc
    rwa [hmem] at hle

variable {env : RecoverEnv} {config : RuntimeConfig} {store : MemoryStore}
  {queuedJobs : HashMap String (List JobId)} {retryJobs : List (JobId × UnixMillis)}

theorem validateRecoveredState_eq :
    validateRecoveredState env store queuedJobs retryJobs config =
      (countLive config (liveBatches (env.order 3) store queuedJobs retryJobs) .empty).bind
        fun live => checkCapacity config ((env.order 4).arrange live.toList) := by
  rw [liveBatches, countLive_append]
  simp only [validateRecoveredState, bind, Except.bind]
  split <;> rfl

theorem validateRecoveredState_ok (env : RecoverEnv) (h : ListsJobs store queuedJobs retryJobs) :
    validateRecoveredState env store queuedJobs retryJobs config = .ok () ↔
      Fits config store := by
  have htotal : ∀ q, ((HashMap.get ((liveBatches (env.order 3) store queuedJobs retryJobs).foldl
      (fun m p => m.upsert p.1 0 (· + p.2)) .empty) q).getD 0) = store.liveIn q := by
    intro q
    rw [HashMap.getD_foldl_upsert, ← h.batchTotal_eq (env.order 3) q]
    simp [batchTotal]
  rw [validateRecoveredState_eq]
  constructor
  · intro hok
    cases hcount : countLive config (liveBatches (env.order 3) store queuedJobs retryJobs) .empty with
    | error e =>
      rw [hcount] at hok
      cases hok
    | ok live =>
      rw [hcount] at hok
      obtain ⟨hconfigured, rfl⟩ := countLive_ok.mp hcount
      refine ⟨?_, ?_⟩
      · intro id st q hplace hst
        obtain ⟨n, hn⟩ := (h.exists_batch (env.order 3) q).mpr ⟨id, st, hplace, hst⟩
        exact hconfigured _ hn
      · intro q c hc
        rw [← htotal q]
        exact checkCapacity_arrange_ok.mp hok q c hc
  · intro hfits
    have hconfigured : ∀ p ∈ liveBatches (env.order 3) store queuedJobs retryJobs,
        (config.capacity p.1).isSome := by
      intro p hp
      obtain ⟨id, st, hplace, hst⟩ := (h.exists_batch (env.order 3) p.1).mp ⟨p.2, hp⟩
      exact hfits.configured id st p.1 hplace hst
    rw [countLive_ok.mpr ⟨hconfigured, rfl⟩]
    refine checkCapacity_arrange_ok.mpr fun q c hc => ?_
    rw [htotal q]
    exact hfits.capacity q c hc

/-! ## Building the lists -/

variable {tracker : RecoveryTracker} {rs : List WalRecord} {s : ReplayState}

theorem get_buildQueuedJobs {q : String} {ids : List JobId} :
    (buildQueuedJobs env store tracker).get q = some ids ↔ ids ≠ [] ∧
      ids = (tracker.queuedIn q).filter fun id => (store.get id).any (·.state = .queued) := by
  have hkeys : (((env.order 1).arrange tracker.queuedOrder.toList).map Prod.fst).Nodup :=
    (IterOrder.nodup_map_arrange _).mpr (HashMap.nodup_keys_toList tracker.queuedOrder)
  rw [buildQueuedJobs, HashMap.get_ofList]
  · rw [List.mem_filterMap]
    constructor
    · rintro ⟨⟨q', l⟩, hmem, heq⟩
      rw [IterOrder.mem_arrange, HashMap.mem_toList] at hmem
      simp only at heq
      split at heq
      · cases heq
      · rename_i hne
        cases heq
        rw [RecoveryTracker.queuedIn, hmem]
        exact ⟨by simpa using hne, rfl⟩
    · rintro ⟨hne, rfl⟩
      cases hget : tracker.queuedOrder.get q with
      | none => simp [RecoveryTracker.queuedIn, hget] at hne
      | some l =>
        have hin : tracker.queuedIn q = l := by simp [RecoveryTracker.queuedIn, hget]
        rw [hin] at hne ⊢
        refine ⟨(q, l), ?_, ?_⟩
        · rw [IterOrder.mem_arrange, HashMap.mem_toList]
          exact hget
        · simp only [List.isEmpty_iff, hne, if_false]
  · refine hkeys.sublist (map_filterMap_sublist ?_ _)
    rintro ⟨q', l⟩ ⟨q'', l'⟩ heq
    simp only at heq
    split at heq <;> cases heq
    rfl

theorem mem_buildRetryJobs {id : JobId} {t : UnixMillis} :
    (id, t) ∈ buildRetryJobs env store tracker ↔ tracker.retryWaiting.get id = some t ∧
      ∃ q, store.place id = some (.retryWaiting, q) := by
  rw [buildRetryJobs, List.mem_filter, IterOrder.mem_arrange, HashMap.mem_toList]
  cases hget : store.get id with
  | none => simp [MemoryStore.place, hget]
  | some job => simp [MemoryStore.place, hget]

theorem Tracked.listsJobs (h : Tracked rs s) (hsettled : ∀ id q, s.store.place id ≠ some (.running, q)) :
    ListsJobs s.store (buildQueuedJobs env s.store s.tracker)
      (buildRetryJobs env s.store s.tracker) where
  queued_nodup q ids hget := by
    rw [(get_buildQueuedJobs.mp hget).2]
    exact (h.queued_nodup q).filter _
  queued_nonempty q ids hget := (get_buildQueuedJobs.mp hget).1
  queued q id := by
    have hfilter : id ∈ (s.tracker.queuedIn q).filter
        (fun id => (s.store.get id).any (·.state = .queued)) ↔
          s.store.place id = some (.queued, q) := by
      rw [List.mem_filter]
      constructor
      · rintro ⟨hmem, hstate⟩
        obtain ⟨job, hget, rfl⟩ := h.queued_from q id hmem
        rw [hget] at hstate
        rw [MemoryStore.place_of_get hget, show job.state = .queued by simpa using hstate]
      · intro hplace
        obtain ⟨job, hget, hstate, rfl⟩ := MemoryStore.place_eq_some.mp hplace
        exact ⟨h.queued id job hget hstate, by simp [hget, hstate]⟩
    rw [← hfilter]
    cases hget : (buildQueuedJobs env s.store s.tracker).get q with
    | some ids => rw [Option.getD_some, (get_buildQueuedJobs.mp hget).2]
    | none =>
      have hnil : (s.tracker.queuedIn q).filter
          (fun id => (s.store.get id).any (·.state = .queued)) = [] := by
        by_contra hne
        rw [get_buildQueuedJobs.mpr ⟨hne, rfl⟩] at hget
        cases hget
      rw [hnil, Option.getD_none]
  retry_nodup := by
    have hkeys : (((env.order 2).arrange s.tracker.retryWaiting.toList).map Prod.fst).Nodup :=
      (IterOrder.nodup_map_arrange _).mpr (HashMap.nodup_keys_toList s.tracker.retryWaiting)
    exact hkeys.sublist (List.filter_sublist.map _)
  retry id := by
    rw [List.mem_map]
    constructor
    · rintro ⟨⟨id', t⟩, hmem, rfl⟩
      exact (mem_buildRetryJobs.mp hmem).2
    · rintro ⟨q, hplace⟩
      obtain ⟨job, hget, hstate, _⟩ := MemoryStore.place_eq_some.mp hplace
      obtain ⟨t, ht⟩ := Option.isSome_iff_exists.mp (h.waiting id job hget hstate)
      exact ⟨(id, t), mem_buildRetryJobs.mpr ⟨ht, q, hplace⟩, rfl⟩
  settled := hsettled

theorem Tracked.getD_buildQueuedJobs (h : Tracked rs s) (hnodup : (submittedIds rs).Nodup)
    (hsettled : ∀ id q, s.store.place id ≠ some (.running, q)) (q : String) :
    ((buildQueuedJobs env s.store s.tracker).get q).getD [] =
      (submittedIds rs).filter fun id => s.store.place id = some (.queued, q) := by
  refine eq_filter_of_sublist ?_ hnodup fun id => ?_
  · cases hget : (buildQueuedJobs env s.store s.tracker).get q with
    | none => exact List.nil_sublist _
    | some ids =>
      rw [Option.getD_some, (get_buildQueuedJobs.mp hget).2]
      exact List.filter_sublist.trans (h.queued_order q)
  · rw [(h.listsJobs hsettled).queued, h.ids, decide_eq_true_eq]
    refine ⟨fun hplace => ⟨?_, hplace⟩, fun hboth => hboth.2⟩
    obtain ⟨job, hget, _⟩ := Option.map_eq_some_iff.mp hplace
    rw [hget]
    rfl

/-! ## The result -/

structure Recovers (env : RecoverEnv) (config : RuntimeConfig) (rs : List WalRecord)
    (rec : RecoveredState) : Prop where
  store : rec.store = MemoryStore.replay .empty (rs ++ reconciliationOf env rs)
  lists : ListsJobs rec.store rec.queuedJobs rec.retryJobs
  order : ∀ q, (rec.queuedJobs.get q).getD [] =
    (submittedIds rs).filter fun id => rec.store.place id = some (.queued, q)
  retry_last : ∀ id t, (id, t) ∈ rec.retryJobs →
    lastRetry (rs ++ reconciliationOf env rs) id = some t
  fits : Fits config rec.store
  nextLeaseEpoch : rec.nextLeaseEpoch.toNat = (maxEpoch rs).toNat + 1
  counted : rec.submitted = (rs ++ reconciliationOf env rs).countP (·.isSubmitted) ∧
    rec.completed = (rs ++ reconciliationOf env rs).countP (·.isCompleted) ∧
    rec.dead = (rs ++ reconciliationOf env rs).countP (·.isDead) ∧
    rec.cancelled = (rs ++ reconciliationOf env rs).countP (·.isCancelled) ∧
    rec.retried = (rs ++ reconciliationOf env rs).countP (·.isRetryScheduled)

theorem place_replay_reconciled (id : JobId) (q : String) :
    (MemoryStore.replay .empty (rs ++ reconciliationOf env rs)).place id ≠
      some (.running, q) := by
  rw [MemoryStore.place, get_replay_reconciled]
  cases (MemoryStore.replay .empty rs).get id with
  | none => simp
  | some job =>
    intro heq
    exact job.reconciled_state (Prod.mk.inj (Option.some.inj heq)).1

theorem reconciled_listsJobs (env : RecoverEnv) (h : (submittedIds rs).Nodup) :
    let s := (reconciliationOf env rs).foldl ReplayState.reconcileRecord
      (rs.foldl ReplayState.replayRecord .new)
    ListsJobs s.store (buildQueuedJobs env s.store s.tracker)
      (buildRetryJobs env s.store s.tracker) := by
  have htracked := tracked_reconciled env h
  refine htracked.listsJobs ?_
  rw [htracked.store]
  exact place_replay_reconciled

/-- Replay and reconciliation of any records that submit no job twice.  The queued and the
retrying jobs of the store are exactly the listed ones, each once; the queued ones in the
order of their submission, the retrying ones with the time last set.  Each job that the
replay left running has got one record, and no other job has. -/
theorem recovery_partitions (env : RecoverEnv) (h : (submittedIds rs).Nodup) :
    let replayed := rs.foldl ReplayState.replayRecord .new
    let recs := reconcileRunningJobs env replayed.store replayed.tracker
    let s := recs.foldl ReplayState.reconcileRecord replayed
    let queuedJobs := buildQueuedJobs env s.store s.tracker
    let retryJobs := buildRetryJobs env s.store s.tracker
    (∀ id job, s.store.get id = some job → job.state ≠ .running) ∧
    (∀ q, ((queuedJobs.get q).getD []).Nodup ∧
      ((queuedJobs.get q).getD []).Sublist (submittedIds rs) ∧
      ∀ id, id ∈ (queuedJobs.get q).getD [] ↔
        ∃ job, s.store.get id = some job ∧ job.state = .queued ∧ job.queue.asStr = q) ∧
    ((retryJobs.map Prod.fst).Nodup ∧ ∀ id t, (id, t) ∈ retryJobs ↔
      (∃ job, s.store.get id = some job ∧ job.state = .retryWaiting) ∧
        lastRetry (rs ++ recs) id = some t) ∧
    (recs.map WalRecord.jobId).Nodup ∧ ∀ id, id ∈ recs.map WalRecord.jobId ↔
      ∃ job, replayed.store.get id = some job ∧ job.state = .running := by
  intro replayed recs s queuedJobs retryJobs
  have htracked : Tracked (rs ++ recs) s := tracked_reconciled env h
  have hlists : ListsJobs s.store queuedJobs retryJobs := reconciled_listsJobs env h
  have hids : submittedIds (rs ++ recs) = submittedIds rs := submittedIds_reconciled env rs
  refine ⟨fun id job hget hrun => ?_, fun q => ⟨?_, ?_, fun id => ?_⟩, ⟨hlists.retry_nodup,
    fun id t => ⟨fun hmem => ?_, ?_⟩⟩, reconcileRunningJobs_nodup _ _, fun id => ?_⟩
  · exact hlists.settled id _ (MemoryStore.place_eq_some.mpr ⟨job, hget, hrun, rfl⟩)
  · cases hget : queuedJobs.get q with
    | none => exact List.nodup_nil
    | some ids => exact hlists.queued_nodup q ids hget
  · rw [htracked.getD_buildQueuedJobs (hids.symm ▸ h) hlists.settled, hids]
    exact List.filter_sublist
  · rw [hlists.queued, MemoryStore.place_eq_some]
  · obtain ⟨hwaiting, q, hplace⟩ := mem_buildRetryJobs.mp hmem
    obtain ⟨job, hget, hstate, -⟩ := MemoryStore.place_eq_some.mp hplace
    exact ⟨⟨job, hget, hstate⟩, htracked.waiting_last id t hwaiting⟩
  · rintro ⟨⟨job, hget, hstate⟩, hlast⟩
    obtain ⟨t', hwaiting⟩ := Option.isSome_iff_exists.mp (htracked.waiting id job hget hstate)
    have hlast' := htracked.waiting_last id t' hwaiting
    rw [hlast] at hlast'
    obtain rfl := Option.some.inj hlast'
    exact mem_buildRetryJobs.mpr ⟨hwaiting, _, MemoryStore.place_eq_some.mpr ⟨job, hget, hstate, rfl⟩⟩
  · change id ∈ (reconciliationOf env rs).map WalRecord.jobId ↔
      ∃ job, (rs.foldl ReplayState.replayRecord .new).store.get id = some job ∧ job.state = .running
    rw [mem_reconciliationOf, store_replay]

def mixedLog : List WalRecord :=
  [.jobLeased ⟨9⟩ ⟨5⟩ 1 ⟨0⟩, .jobSubmitted ⟨1⟩ ⟨"mail"⟩ ⟨[], 3⟩ ⟨0⟩,
    .jobSubmitted ⟨2⟩ ⟨"mail"⟩ ⟨[], 3⟩ ⟨0⟩, .jobLeased ⟨1⟩ ⟨6⟩ 1 ⟨0⟩, .jobCompleted ⟨9⟩ ⟨5⟩ ⟨0⟩]

theorem recovery_partitions_mixed :
    (submittedIds mixedLog).Nodup ∧
      ⟨1⟩ ∈ (reconciliationOf ⟨⟨7⟩, fun _ => .asIs⟩ mixedLog).map WalRecord.jobId ∧
      ⟨9⟩ ∉ (reconciliationOf ⟨⟨7⟩, fun _ => .asIs⟩ mixedLog).map WalRecord.jobId := by
  have hnodup : (submittedIds mixedLog).Nodup := by decide
  have hrecs := (recovery_partitions ⟨⟨7⟩, fun _ => .asIs⟩ hnodup).2.2.2.2
  refine ⟨hnodup, (hrecs ⟨1⟩).mpr ⟨_, rfl, rfl⟩, fun hmem => ?_⟩
  obtain ⟨job, hget, -⟩ := (hrecs ⟨9⟩).mp hmem
  cases hget

variable {rec : RecoveredState} {nextSequence nextLeaseEpoch : UInt64}

theorem finishRecovery_recovers (h : (submittedIds rs).Nodup)
    (hepoch : nextLeaseEpoch.toNat = (maxEpoch rs).toNat + 1)
    (hok : finishRecovery env config (rs.foldl ReplayState.replayRecord .new)
      (reconciliationOf env rs) nextSequence nextLeaseEpoch = .ok rec) :
    Recovers env config rs rec ∧ rec.nextSequence = nextSequence := by
  have htracked := tracked_reconciled env h
  have hlists := reconciled_listsJobs env h
  unfold finishRecovery at hok
  simp only at hok
  split at hok
  · cases hok
  · rename_i hvalid
    cases hok
    refine ⟨⟨htracked.store, hlists, fun q => ?_, ?_,
      (validateRecoveredState_ok env hlists).mp hvalid, hepoch, htracked.counted⟩, rfl⟩
    · have hids := submittedIds_reconciled env rs
      rw [← hids]
      refine htracked.getD_buildQueuedJobs (hids.symm ▸ h) ?_ q
      rw [htracked.store]
      exact place_replay_reconciled
    · intro id t hmem
      exact htracked.waiting_last id t (mem_buildRetryJobs.mp hmem).1

theorem finishRecovery_of_fits (h : (submittedIds rs).Nodup) (nextSequence nextLeaseEpoch : UInt64)
    (hfits : Fits config (MemoryStore.replay .empty (rs ++ reconciliationOf env rs))) :
    ∃ rec, finishRecovery env config (rs.foldl ReplayState.replayRecord .new)
        (reconciliationOf env rs) nextSequence nextLeaseEpoch = .ok rec ∧
      rec.store = MemoryStore.replay .empty (rs ++ reconciliationOf env rs) ∧
      ListsJobs rec.store rec.queuedJobs rec.retryJobs := by
  have hlists := reconciled_listsJobs env h
  have hstore := (tracked_reconciled env h).store
  rw [← hstore] at hfits
  have hvalid := (validateRecoveredState_ok env hlists).mpr hfits
  unfold finishRecovery
  simp only [hvalid]
  exact ⟨_, rfl, hstore, hlists⟩

def logOf (X : Crates) : Option (List UInt8) → List WalRecord
  | none | some [] => []
  | some file =>
    match scanWal X file with
    | .error _ => []
    | .ok scan => scan.records

theorem checkedSucc_some {n m : UInt64} (h : checkedSucc n = some m) : m.toNat = n.toNat + 1 := by
  unfold checkedSucc at h
  split at h
  · cases h
  · rename_i hne
    cases h
    rw [UInt64.toNat_add]
    have := n.toNat_lt
    exact Nat.mod_eq_of_lt (by simp only [UInt64.toNat_one]; omega)

theorem recovers_empty (env : RecoverEnv) (config : RuntimeConfig) :
    Recovers env config [] ⟨.empty, .empty, [], 1, 1, 0, 0, 0, 0, 0⟩ := by
  refine ⟨rfl, ?_, fun _ => rfl, by simp, ?_, rfl, ⟨rfl, rfl, rfl, rfl, rfl⟩⟩
  · constructor <;> simp [MemoryStore.place]
  · constructor <;> simp [MemoryStore.place, MemoryStore.liveIn]

/-- Whatever the file holds, a recovery that succeeds returns the state of its records, as
long as they submit no job twice. -/
theorem recover_recovers {X : Crates} {walFile : Option (List UInt8)} {file : List UInt8}
    (h : (submittedIds (logOf X walFile)).Nodup)
    (hok : recover X env config walFile = (.ok rec, file)) :
    Recovers env config (logOf X walFile) rec := by
  match walFile with
  | none =>
    cases hok
    exact recovers_empty env config
  | some [] =>
    cases hok
    exact recovers_empty env config
  | some (b :: bs) =>
    unfold recover at hok
    simp only at hok
    cases hscan : scanWal X (b :: bs) with
    | error e =>
      rw [hscan] at hok
      cases hok
    | ok scan =>
      have hlog : logOf X (some (b :: bs)) = scan.records := by simp only [logOf, hscan]
      rw [hlog] at h ⊢
      rw [hscan] at hok
      simp only at hok
      split at hok
      · cases hok
      split at hok
      · cases hok
      rename_i hepoch
      split at hok
      · cases hok
      have hepoch := checkedSucc_some hepoch
      rw [(tracked_replay h).maxLeaseEpoch] at hepoch
      obtain ⟨hfinish, _⟩ := Prod.mk.inj hok
      exact (finishRecovery_recovers h hepoch hfinish).1

end DurableQueue
