import DurableQueue.Defs.RuntimeLaws

/-! What an operation leaves behind when its persist call returns an error. -/

namespace DurableQueue

namespace Coordinator

variable {X : Crates} {P : Fault → Prop} {config : RuntimeConfig} {env : Env}
  {s₀ s s' s'' : Coordinator}

structure Intact (s s' : Coordinator) (id : JobId) (q : String) : Prop where
  record : s'.store.get id = s.store.get id
  lease : s'.leases.get id = s.leases.get id
  queue : s'.queues.get q = s.queues.get q
  heap : s'.retryQueue.filter (·.jobId = id) = s.retryQueue.filter (·.jobId = id)
  permit : s'.permits.get id = s.permits.get id
  available : (s'.semaphores.get q).map (·.available) = (s.semaphores.get q).map (·.available)
  counters : s'.globalStats = s.globalStats

theorem Intact.refl (s : Coordinator) (id : JobId) (q : String) : Intact s s id q :=
  ⟨rfl, rfl, rfl, rfl, rfl, rfl, rfl⟩

theorem intact_refuse (s : Coordinator) (r : WalRecord) (e : WalError) (st : Storage) (t : Nat)
    (id : JobId) (q : String) : Intact s (s.refuse r e st t) id q :=
  ⟨rfl, rfl, rfl, rfl, rfl, rfl, rfl⟩

def newlyFailed (s s' : Coordinator) : List WalRecord := s'.failed.drop s.failed.length

theorem newlyFailed_append {l : List WalRecord} (h : s'.failed = s.failed ++ l) :
    newlyFailed s s' = l := by
  simp [newlyFailed, h]

theorem newlyFailed_same (h : s'.failed = s.failed) : newlyFailed s s' = [] :=
  newlyFailed_append (by simpa using h)

/-! ## Running one operation -/

/-- Persist, apply, expose: either no persist call fails, or the one that does leaves the
state as it was when `persist` was called. -/
theorem wp_persist_apply {α : Type} {r : WalRecord} {f : CoordM α} {g : WalError → α}
    {g' : Error → α} {K : Coordinator → Prop}
    (hK : ∀ s₁ : Coordinator, s₁.failed = s.failed → s₁.leases = s.leases → K s₁)
    (hf : ∀ s₁ : Coordinator, s₁.failed = s.failed → s₁.leases = s.leases →
      wp f (fun _ s' => K s') (fun _ _ => True) s₁) :
    wp (do
        match ← persist X env r with
        | .error e => return g e
        | .ok _ =>
          match ← applyRecord r with
          | .error e => return g' e
          | .ok () => f)
      (fun _ s' => K s' ∨ ∃ e st t, s' = s.refuse r e st t) (fun _ _ => True) s := by
  refine (wp_bind _ _).mpr (wp_persist (P := fun _ => True) (fun _ => trivial) ?_ ?_ ?_)
  · intro fault seq st _ _
    refine (wp_bind _ _).mpr (wp_applyRecord ?_ ?_)
    · intro store
      refine wp_mono (hf _ ?_ rfl) (fun _ s' h => Or.inl h) (fun _ _ h => h)
      simp [failed, Event.asFailed]
    · intro e
      refine Or.inl (hK _ ?_ rfl)
      simp [failed, Event.asFailed]
  · intro fault e st _ _
    exact Or.inr ⟨e, st, _, rfl⟩
  · intros
    trivial

theorem doCancel_failure (id : JobId) :
    wp (doCancel X env id)
      (fun _ s' => s'.failed = s.failed ∨ ∃ job cancelledAt e st t, s.store.get id = some job ∧
        s' = s.refuse (.jobCancelled id cancelledAt) e st t) (fun _ _ => True) s := by
  unfold doCancel
  refine (wp_bind _ _).mpr (wp_get.mpr ?_)
  cases hget : s.store.get id with
  | none => exact Or.inl rfl
  | some job =>
    simp only
    split
    · exact Or.inl rfl
    · refine (wp_bind _ _).mpr (wp_draw.mpr ?_)
      refine wp_mono (wp_persist_apply (K := fun s' => s'.failed = s.failed) ?_ ?_) ?_
        (fun _ _ h => h)
      · exact fun s₁ hfailed _ => hfailed
      · intro s₁ hfailed _
        refine (wp_bind _ _).mpr (wp_get.mpr ((wp_bind _ _).mpr (wp_modify _ |>.mpr ?_)))
        exact (failed_exposeCancel ..).trans hfailed
      · rintro _ s' (h | ⟨e, st, t, rfl⟩)
        · exact Or.inl h
        · exact Or.inr ⟨job, _, e, st, t, rfl, rfl⟩

section

variable (id : JobId) (queue : QueueName)

theorem finishJob_failure (record : UnixMillis → WalRecord) (hid : ∀ t, (record t).jobId = id)
    (count : QueueStats → QueueStats) (countGlobal : GlobalStats → GlobalStats) :
    wp (finishJob X env id queue record count countGlobal)
      (fun _ s' => (s'.failed = s.failed ∧ s'.leases = s.leases) ∨
        ∃ r e st t, r.jobId = id ∧ s' = s.refuse r e st t)
      (fun _ _ => True) s := by
  unfold finishJob
  refine (wp_bind _ _).mpr (wp_draw.mpr ?_)
  refine wp_mono (wp_persist_apply (K := fun s' => s'.failed = s.failed ∧ s'.leases = s.leases)
    ?_ ?_) ?_ (fun _ _ h => h)
  · exact fun s₁ hfailed hleases => ⟨hfailed, hleases⟩
  · exact fun s₁ hfailed hleases => ⟨hfailed, hleases⟩
  · rintro _ s' (h | ⟨e, st, t, rfl⟩)
    · exact Or.inl h
    · exact Or.inr ⟨_, e, st, t, hid _, rfl⟩

theorem scheduleRetry_failure (leaseId : LeaseId) (attempt : UInt32) :
    wp (scheduleRetry X config env id leaseId queue attempt)
      (fun _ s' => (s'.failed = s.failed ∧ s'.leases = s.leases) ∨
        ∃ r e st t, r.jobId = id ∧ s' = s.refuse r e st t)
      (fun _ _ => True) s := by
  unfold scheduleRetry
  refine (wp_bind _ _).mpr (wp_draw.mpr ((wp_bind _ _).mpr (wp_draw.mpr ?_)))
  refine wp_mono (wp_persist_apply (K := fun s' => s'.failed = s.failed ∧ s'.leases = s.leases)
    ?_ ?_) ?_ (fun _ _ h => h)
  · exact fun s₁ hfailed hleases => ⟨hfailed, hleases⟩
  · intro s₁ hfailed hleases
    exact (wp_bind _ _).mpr (wp_nowPlus (fun _ => ⟨hfailed, hleases⟩) fun _ => trivial)
  · rintro _ s' (h | ⟨e, st, t, rfl⟩)
    · exact Or.inl h
    · exact Or.inr ⟨_, e, st, t, rfl, rfl⟩

theorem retryOrDie_failure (leaseId : LeaseId) (job : JobRecord) :
    wp (retryOrDie X config env id leaseId job)
      (fun _ s' => (s'.failed = s.failed ∧ s'.leases = s.leases) ∨
        ∃ r e st t, r.jobId = id ∧ s' = s.refuse r e st t)
      (fun _ _ => True) s := by
  unfold retryOrDie
  split
  · exact finishJob_failure id job.queue _ (fun _ => rfl) _ _
  · exact scheduleRetry_failure id job.queue leaseId job.attempts

theorem doWorkerOutcome_failure (leaseId : LeaseId) (outcome : WorkerOutcome) :
    wp (doWorkerOutcome X config env id leaseId outcome)
      (fun _ s' => s'.failed = s.failed ∨
        (s.leases.get id).isSome ∧ ∃ r e st t, r.jobId = id ∧ s' = (s.removeLease id).refuse r e st t)
      (fun _ _ => True) s := by
  unfold doWorkerOutcome
  refine (wp_bind _ _).mpr (wp_get.mpr ?_)
  cases hl : s.leases.get id with
  | none => exact Or.inl rfl
  | some lease =>
    simp only
    split
    · exact Or.inl rfl
    · refine (wp_bind _ _).mpr ((wp_modify _).mpr ((wp_bind _ _).mpr (wp_get.mpr ?_)))
      -- whichever branch the outcome selects, it starts from the state without the lease
      have hbranch : ∀ m : CoordM Unit, wp m
          (fun _ s' => (s'.failed = (s.removeLease id).failed ∧
              s'.leases = (s.removeLease id).leases) ∨
            ∃ r e st t, r.jobId = id ∧ s' = (s.removeLease id).refuse r e st t)
          (fun _ _ => True) (s.removeLease id) →
          wp m (fun _ s' => s'.failed = s.failed ∨
            (some lease).isSome ∧ ∃ r e st t, r.jobId = id ∧ s' = (s.removeLease id).refuse r e st t)
          (fun _ _ => True) (s.removeLease id) := by
        intro m hm
        refine wp_mono hm ?_ (fun _ _ h => h)
        rintro _ s' (h | h)
        · exact Or.inl (h.1.trans (failed_removeLease id s))
        · exact Or.inr ⟨rfl, h⟩
      split
      · exact Or.inl (failed_removeLease id s)
      · rename_i job _
        cases outcome with
        | success => exact hbranch _ (finishJob_failure id job.queue _ (fun _ => rfl) _ _)
        | fatal => exact hbranch _ (finishJob_failure id job.queue _ (fun _ => rfl) _ _)
        | retryable | panic => exact hbranch _ (retryOrDie_failure id leaseId job)

end

/-! ## Timeouts -/

structure Strands (s s' : Coordinator) : Prop where
  failed : ∃ l, s'.failed = s.failed ++ l ∧
    ∀ r ∈ l, (s.leases.get r.jobId).isSome ∧ s'.leases.get r.jobId = none
  leases : ∀ id, s'.leases.get id = s.leases.get id ∨ s'.leases.get id = none

theorem Strands.trans (h : Strands s s') (h' : Strands s' s'') : Strands s s'' := by
  obtain ⟨⟨l, hl, hgone⟩, hleases⟩ := h
  obtain ⟨⟨l', hl', hgone'⟩, hleases'⟩ := h'
  refine ⟨⟨l ++ l', by rw [hl', hl, List.append_assoc], ?_⟩, ?_⟩
  · intro r hr
    rcases List.mem_append.mp hr with hr | hr
    · obtain ⟨hsome, hnone⟩ := hgone r hr
      refine ⟨hsome, ?_⟩
      rcases hleases' r.jobId with h | h
      · rw [h, hnone]
      · exact h
    · obtain ⟨hsome, hnone⟩ := hgone' r hr
      refine ⟨?_, hnone⟩
      rcases hleases r.jobId with h | h
      · rwa [h] at hsome
      · rw [h] at hsome
        cases hsome
  · intro id
    rcases hleases' id with h' | h'
    · rw [h']
      exact hleases id
    · exact Or.inr h'

theorem strands_refl (s : Coordinator) : Strands s s :=
  ⟨⟨[], by simp, by simp⟩, fun _ => Or.inl rfl⟩

theorem get_cancelLease (id id' : JobId) (s : Coordinator) :
    (s.cancelLease id).leases.get id' = if id' = id then none else s.leases.get id' :=
  HashMap.get_erase ..

theorem failed_cancelLease (id : JobId) (s : Coordinator) :
    (s.cancelLease id).failed = s.failed :=
  failed_removeLease id s

theorem expireLease_strands (id : JobId) (leaseId : LeaseId) :
    wp (expireLease X config env id leaseId) (fun _ s' => Strands s s') (fun _ _ => True) s := by
  unfold expireLease
  refine (wp_bind _ _).mpr (wp_get.mpr ?_)
  split
  · exact strands_refl s
  · rename_i hsome
    rw [Option.isNone_iff_eq_none, ← ne_eq, Option.ne_none_iff_isSome] at hsome
    have hleases : ∀ s' : Coordinator, s'.leases = (s.cancelLease id).leases →
        ∀ id', s'.leases.get id' = s.leases.get id' ∨ s'.leases.get id' = none := by
      intro s' hs' id'
      rw [hs', get_cancelLease]
      split
      · exact Or.inr rfl
      · exact Or.inl rfl
    refine (wp_bind _ _).mpr ((wp_modify _).mpr ((wp_bind _ _).mpr (wp_get.mpr ?_)))
    split
    · refine ⟨⟨[], ?_, by simp⟩, hleases _ rfl⟩
      simpa using failed_cancelLease id s
    · refine wp_mono (retryOrDie_failure id leaseId _) ?_ (fun _ _ h => h)
      rintro _ s' (⟨hfailed, hsame⟩ | ⟨r, e, st, t, hid, rfl⟩)
      · refine ⟨⟨[], ?_, by simp⟩, hleases s' hsame⟩
        simpa using hfailed.trans (failed_cancelLease id s)
      · refine ⟨⟨[r], ?_, ?_⟩, hleases _ rfl⟩
        · rw [failed_refuse, failed_cancelLease]
        · intro r' hr'
          rw [List.mem_singleton.mp hr', hid]
          exact ⟨hsome, (get_cancelLease id id s).trans (if_pos rfl)⟩

theorem expireLeases_strands (timedOut : List (JobId × LeaseId)) :
    wp (expireLeases X config env timedOut) (fun _ s' => Strands s s') (fun _ _ => True) s := by
  induction timedOut generalizing s with
  | nil => exact strands_refl s
  | cons p rest ih =>
    refine (wp_bind _ _).mpr (wp_mono (expireLease_strands p.1 p.2) ?_ (fun _ _ h => h))
    intro _ s₁ h₁
    exact wp_mono ih (fun _ s₂ h₂ => h₁.trans h₂) (fun _ _ h => h)

theorem checkLeaseTimeouts_strands :
    wp (checkLeaseTimeouts X config env) (fun _ s' => Strands s s') (fun _ _ => True) s := by
  unfold checkLeaseTimeouts
  refine (wp_bind _ _).mpr (wp_draw.mpr ((wp_bind _ _).mpr (wp_draw.mpr
    ((wp_bind _ _).mpr (wp_get.mpr ?_)))))
  refine wp_mono (expireLeases_strands _) ?_ (fun _ _ h => h)
  intro _ s' h
  exact ⟨h.failed, h.leases⟩

/-! ## Leasing -/

/-- One round on a queue: there is no work, or the persist call for the job at the front
fails, or that job is leased. -/
inductive Probe (s : Coordinator) (queue : String) :
    Option (Option LeasedJob) → Coordinator → Prop
  | skip (hidle : ∀ qs, s.queues.get queue = some qs → ∀ id, qs.ready.head? = some id →
      ∀ job, s.store.get id = some job → job.state ≠ .queued) : Probe s queue none s
  | refuse {id : JobId} {qs : QueueState} {job : JobRecord} (leasedAt : UnixMillis) (e : WalError)
      (st : Storage) (t : Nat) (hqueue : s.queues.get queue = some qs)
      (hfront : qs.ready.head? = some id)
      (hjob : s.store.get id = some job) (hstate : job.state = .queued) :
      Probe s queue none
        (s.refuse (.jobLeased id ⟨s.nextLeaseEpoch⟩ (job.attempts + 1) leasedAt) e st t)
  | lease {id : JobId} {qs : QueueState} {job : JobRecord} (leasedAt : UnixMillis)
      (deadline : Instant) (st : Storage) (t : Nat) (hqueue : s.queues.get queue = some qs)
      (hfront : qs.ready.head? = some id) (hjob : s.store.get id = some job)
      (hstate : job.state = .queued) :
      Probe s queue
        (some (some ⟨⟨job.id, job.queue, job.spec.payload, job.attempts + 1, job.spec.maxAttempts,
          ⟨s.nextLeaseEpoch⟩⟩, ⟨s.nextLeaseEpoch⟩⟩))
        (exposeLease id queue ⟨⟨s.nextLeaseEpoch⟩, deadline⟩ (popReady queue
          (s.commit (.jobLeased id ⟨s.nextLeaseEpoch⟩ (job.attempts + 1) leasedAt) st t)))

theorem leaseFront_probe (queue : String) :
    wp (leaseFront X config env queue) (Probe s queue) (fun _ _ => True) s := by
  unfold leaseFront
  refine (wp_bind _ _).mpr (wp_get.mpr ?_)
  cases hqueue : s.queues.get queue with
  | none => exact .skip (by simp [hqueue])
  | some qs =>
    simp only
    cases hfront : qs.ready.head? with
    | none => exact .skip (by simp [hqueue, hfront])
    | some id =>
      simp only
      cases hjob : s.store.get id with
      | none => exact .skip (by simp [hqueue, hfront, hjob])
      | some job =>
        simp only
        split
        · rename_i hstate
          refine .skip ?_
          simpa [hqueue, hfront, hjob] using hstate
        · rename_i hstate
          rw [ne_eq, not_not] at hstate
          refine (wp_bind _ _).mpr (wp_draw.mpr ?_)
          refine (wp_bind _ _).mpr (wp_persist (P := fun _ => True) (fun _ => trivial) ?_ ?_ ?_)
          · intro fault seq st _ _
            refine (wp_bind _ _).mpr ((wp_modify _).mpr ?_)
            have happly : s.store.applyRecord (.jobLeased id ⟨s.nextLeaseEpoch⟩
                (job.attempts + 1) (env.wall s.tick)) = _ :=
              MemoryStore.applyRecord_eq hjob (by rw [hstate]; rfl)
            refine (wp_bind _ _).mpr ?_
            unfold wp applyRecord
            simp only [popReady, updateQueue, happly]
            refine (wp_bind _ _).mpr (wp_nowPlus (fun _ => (wp_bind _ _).mpr ((wp_modify _).mpr
              ((wp_bind _ _).mpr (wp_get.mpr ?_)))) fun _ => trivial)
            have hget : (s.store.applyRecordForRecovery (.jobLeased id ⟨s.nextLeaseEpoch⟩
                (job.attempts + 1) (env.wall s.tick))).get id =
                  some { job with state := .running, attempts := job.attempts + 1 } := by
              rw [MemoryStore.get_applyRecordForRecovery, hjob]
              exact if_pos rfl
            simp only [exposeLease, updateStats, updateQueue, hget]
            exact .lease _ _ st _ hqueue hfront hjob hstate
          · intro fault e st _ _
            exact .refuse _ e st _ hqueue hfront hjob hstate
          · intros
            trivial

structure LeasePass (s : Coordinator) (names : List String) (s' : Coordinator) : Prop where
  failed : ∃ l, s'.failed = s.failed ++ l ∧ ∀ r ∈ l, r.isSubmitted = false ∧
    ∃ q, s.store.place r.jobId = some (.queued, q) ∧ Intact s s' r.jobId q
  elsewhere : ∀ id q, s.store.place id = some (.queued, q) → q ∉ names → Intact s s' id q

def upcoming (s : Coordinator) (n rounds : Nat) : List String :=
  (List.range rounds).map fun k => s.queueOrder.getD ((s.nextQueueIdx + k) % n) ""

theorem upcoming_succ {n : Nat} (h : s.nextQueueIdx < n) (rounds : Nat) :
    upcoming s n (rounds + 1) = s.queueOrder.getD s.nextQueueIdx "" ::
      upcoming { s with nextQueueIdx := (s.nextQueueIdx + 1) % n } n rounds := by
  rw [upcoming, List.range_succ_eq_map, List.map_cons, Nat.add_zero, Nat.mod_eq_of_lt h,
    List.map_map, upcoming]
  congr 1
  apply List.map_congr_left
  intro k _
  simp only [Function.comp_apply, Nat.succ_eq_add_one, Nat.mod_add_mod]
  rw [Nat.add_assoc, Nat.add_comm 1 k]

theorem intact_elsewhere (hs : Placement config s) {queue q : String} {id id' : JobId}
    {qs : QueueState} (hqueue : s.queues.get queue = some qs)
    (hfront : qs.ready.head? = some id) (hplace : s.store.place id' = some (.queued, q))
    (hne : q ≠ queue) (lease : ActiveLease) (leaseId : LeaseId) (attempt : UInt32)
    (leasedAt : UnixMillis) (st : Storage) (t : Nat) :
    Intact s (exposeLease id queue lease (popReady queue
      (s.commit (.jobLeased id leaseId attempt leasedAt) st t))) id' q := by
  have hid : id' ≠ id := by
    rintro rfl
    have hmem := (hs.mem_ready queue qs id' hqueue).mp (List.mem_of_mem_head? hfront)
    rw [hplace] at hmem
    exact hne (Prod.mk.inj (Option.some.inj hmem)).2
  refine ⟨?_, ?_, ?_, rfl, rfl, rfl, rfl⟩
  · exact (MemoryStore.get_applyRecordForRecovery ..).trans (if_neg hid)
  · exact (HashMap.get_insert ..).trans (if_neg hid)
  · refine (HashMap.get_modify ..).trans ((if_neg hne).trans ?_)
    exact (HashMap.get_modify ..).trans (if_neg hne)

theorem tryLeaseLoop_pass {n : Nat} (hs : Placement config s) (hidx : s.nextQueueIdx < n)
    {rounds : Nat} (hnodup : (upcoming s n rounds).Nodup) :
    wp (tryLeaseLoop X config env n rounds)
      (fun _ s' => LeasePass s (upcoming s n rounds) s') (fun _ _ => True) s := by
  induction rounds generalizing s with
  | zero => exact ⟨⟨[], by simp, by simp⟩, fun id q _ _ => Intact.refl s id q⟩
  | succ rounds ih =>
    rw [upcoming_succ hidx, List.nodup_cons] at hnodup
    rw [upcoming_succ hidx]
    have hidx' : (s.nextQueueIdx + 1) % n < n := Nat.mod_lt _ (Nat.zero_lt_of_lt hidx)
    have hs₁ : Placement config { s with nextQueueIdx := (s.nextQueueIdx + 1) % n } :=
      { hs with }
    refine (wp_bind _ _).mpr (wp_get.mpr ((wp_bind _ _).mpr ((wp_set _).mpr ?_)))
    refine (wp_bind _ _).mpr (wp_mono (leaseFront_probe _) ?_ (fun _ _ h => h))
    intro found s₁ hround
    cases hround with
    | skip =>
      refine wp_mono (ih hs₁ hidx' hnodup.2) ?_ (fun _ _ h => h)
      intro _ s' hpass
      obtain ⟨⟨l, hl, hintact⟩, helse⟩ := hpass
      refine ⟨⟨l, hl, fun r hr => ?_⟩, fun id q hplace hq => ?_⟩
      · obtain ⟨hsub, q, hplace, hi⟩ := hintact r hr
        exact ⟨hsub, q, hplace, { hi with }⟩
      · exact { helse id q hplace (fun h => hq (List.mem_cons_of_mem _ h)) with }
    | @refuse id qs job leasedAt e st t hqueue hfront =>
      have hplace : s.store.place id = some (.queued, _) :=
        (hs.mem_ready _ qs id hqueue).mp (List.mem_of_mem_head? hfront)
      refine wp_mono (ih (hs₁.refuse _ e st t) hidx' hnodup.2) ?_ (fun _ _ h => h)
      intro _ s' hpass
      obtain ⟨⟨l, hl, hintact⟩, helse⟩ := hpass
      refine ⟨⟨.jobLeased id ⟨s.nextLeaseEpoch⟩ (job.attempts + 1) leasedAt :: l, ?_, ?_⟩,
        fun id' q hplace hq => ?_⟩
      · rw [hl, failed_refuse, List.append_assoc]
        rfl
      · intro r hr
        rcases List.mem_cons.mp hr with rfl | hr
        · exact ⟨rfl, _, hplace, { helse id _ hplace hnodup.1 with }⟩
        · obtain ⟨hsub, q, hplace, hi⟩ := hintact r hr
          exact ⟨hsub, q, hplace, { hi with }⟩
      · exact { helse id' q hplace (fun h => hq (List.mem_cons_of_mem _ h)) with }
    | lease leasedAt deadline st t hqueue hfront =>
      refine ⟨⟨[], ?_, by simp⟩, fun id' q hplace hq => ?_⟩
      · rw [List.append_nil]
        exact (failed_exposeLease ..).trans (failed_commit _ st t _)
      exact { intact_elsewhere hs₁ hqueue hfront hplace
        (fun h => hq (h ▸ List.mem_cons_self)) _ _ _ leasedAt st t with }

theorem upcoming_nodup (hnodup : s.queueOrder.Nodup)
    (hidx : s.nextQueueIdx < s.queueOrder.length) :
    (upcoming s s.queueOrder.length s.queueOrder.length).Nodup := by
  have hpos : 0 < s.queueOrder.length := Nat.zero_lt_of_lt hidx
  refine List.Nodup.map_on ?_ List.nodup_range
  intro i hi j hj heq
  rw [List.mem_range] at hi hj
  have hget : ∀ k, s.queueOrder.getD ((s.nextQueueIdx + k) % s.queueOrder.length) "" =
      s.queueOrder.get ⟨(s.nextQueueIdx + k) % s.queueOrder.length, Nat.mod_lt _ hpos⟩ := by
    intro k
    simp [List.getD, Nat.mod_lt _ hpos]
  rw [hget, hget, hnodup.get_inj_iff, Fin.mk.injEq] at heq
  have hmod : i ≡ j [MOD s.queueOrder.length] := Nat.ModEq.add_left_cancel' _ heq
  rwa [Nat.ModEq, Nat.mod_eq_of_lt hi, Nat.mod_eq_of_lt hj] at hmod

theorem tryLeaseJob_pass (hs : Placement config s) (hnodup : s.queueOrder.Nodup)
    (hcursor : s.CursorInside) :
    wp (tryLeaseJob X config env)
      (fun _ s' => LeasePass s (upcoming s s.queueOrder.length s.queueOrder.length) s')
      (fun _ _ => True) s := by
  refine (wp_bind _ _).mpr (wp_get.mpr ?_)
  rcases hcursor with hnil | hidx
  · rw [hnil]
    exact ⟨⟨[], by simp, by simp⟩, fun id q _ _ => Intact.refl s id q⟩
  · exact tryLeaseLoop_pass hs hidx (upcoming_nodup hnodup hidx)

/-! ## Submission -/

def NoSubmitFails (s s' : Coordinator) : Prop :=
  ∃ l, s'.failed = s.failed ++ l ∧ ∀ r ∈ l, r.isSubmitted = false

theorem NoSubmitFails.of_same (h : s'.failed = s.failed) : NoSubmitFails s s' :=
  ⟨[], by simpa using h, by simp⟩

theorem NoSubmitFails.trans (h : NoSubmitFails s s') (h' : NoSubmitFails s' s'') :
    NoSubmitFails s s'' := by
  obtain ⟨l, hl, hno⟩ := h
  obtain ⟨l', hl', hno'⟩ := h'
  refine ⟨l ++ l', by rw [hl', hl, List.append_assoc], ?_⟩
  intro r hr
  rcases List.mem_append.mp hr with hr | hr
  · exact hno r hr
  · exact hno' r hr

theorem Probe.noSubmitFails {queue : String} {found : Option (Option LeasedJob)}
    (h : Probe s queue found s') : NoSubmitFails s s' := by
  cases h with
  | skip => exact .of_same rfl
  | refuse => exact ⟨_, failed_refuse .., by simp [WalRecord.isSubmitted]⟩
  | lease _ _ st t =>
    exact .of_same ((failed_exposeLease ..).trans (failed_commit _ st t _))

theorem tryLeaseLoop_noSubmitFails (n rounds : Nat) :
    wp (tryLeaseLoop X config env n rounds) (fun _ s' => NoSubmitFails s s')
      (fun _ _ => True) s := by
  induction rounds generalizing s with
  | zero => exact .of_same rfl
  | succ rounds ih =>
    refine (wp_bind _ _).mpr (wp_get.mpr ((wp_bind _ _).mpr ((wp_set _).mpr ?_)))
    refine (wp_bind _ _).mpr (wp_mono (leaseFront_probe _) ?_ (fun _ _ h => h))
    intro found s₁ hround
    have h₁ : NoSubmitFails s s₁ := hround.noSubmitFails
    cases found with
    | some result => exact h₁
    | none => exact wp_mono ih (fun _ s' h => h₁.trans h) (fun _ _ h => h)

theorem dispatchLoop_noSubmitFails (rounds : Nat) :
    wp (dispatchLoop X config env rounds) (fun _ s' => NoSubmitFails s s')
      (fun _ _ => True) s := by
  induction rounds generalizing s with
  | zero => exact .of_same rfl
  | succ rounds ih =>
    refine (wp_bind _ _).mpr (wp_get.mpr ?_)
    split
    · exact .of_same rfl
    · refine (wp_bind _ _).mpr (wp_mono ((wp_bind _ _).mpr (wp_get.mpr
        (tryLeaseLoop_noSubmitFails _ _))) ?_ (fun _ _ h => h))
      intro leased s₁ h₁
      cases leased with
      | none => exact h₁
      | some job =>
        refine (wp_bind _ _).mpr (wp_get.mpr ?_)
        cases s₁.parkedWorkers with
        | nil => exact wp_mono ih (fun _ s' h => h₁.trans h) (fun _ _ h => h)
        | cons worker rest =>
          refine (wp_bind _ _).mpr ((wp_modify _).mpr ?_)
          exact wp_mono ih (fun _ s' h => h₁.trans h) (fun _ _ h => h)

theorem doSubmit_failure (queue : QueueName) (spec : JobSpec) (permit : OwnedSemaphorePermit) :
    wp (doSubmit X config env queue spec permit)
      (fun _ s' => NoSubmitFails s s' ∨ ∃ id createdAt e st t,
        s' = s.refuse (.jobSubmitted id queue spec createdAt) e st t) (fun _ _ => True) s := by
  unfold doSubmit
  refine (wp_bind _ _).mpr (wp_get.mpr ?_)
  split
  · exact Or.inl (.of_same rfl)
  split
  · exact Or.inl (.of_same rfl)
  refine (wp_bind _ _).mpr (wp_draw.mpr ((wp_bind _ _).mpr (wp_draw.mpr ?_)))
  refine wp_mono (wp_persist_apply (K := fun s' => NoSubmitFails s s') ?_ ?_) ?_
    (fun _ _ h => h)
  · exact fun s₁ hfailed _ => .of_same hfailed
  · intro s₁ hfailed _
    refine (wp_bind _ _).mpr (wp_get.mpr ((wp_bind _ _).mpr ((wp_modify _).mpr ?_)))
    refine (wp_bind _ _).mpr ((wp_bind _ _).mpr (wp_get.mpr ?_))
    have h₁ : NoSubmitFails s (exposeSubmit (env.uuid s.tick) queue permit s₁) :=
      .of_same ((failed_exposeSubmit ..).trans hfailed)
    split
    · exact h₁
    · refine (wp_bind _ _).mpr (wp_get.mpr ?_)
      exact wp_mono (dispatchLoop_noSubmitFails _) (fun _ s' h => h₁.trans h) (fun _ _ h => h)
  · rintro _ s' (h | ⟨e, st, t, rfl⟩)
    · exact Or.inl h
    · exact Or.inr ⟨_, _, e, st, t, rfl⟩

/-! ## The operations that persist -/

def queueOf (s : Coordinator) : WalRecord → Option String
  | .jobSubmitted _ queue _ _ => some queue.asStr
  | r => (s.store.get r.jobId).map (·.queue.asStr)

theorem queueOf_of_place {r : WalRecord} {st : JobState} {q : String}
    (hr : r.isSubmitted = false) (h : s.store.place r.jobId = some (st, q)) :
    s.queueOf r = some q := by
  obtain ⟨job, hjob, hp⟩ := Option.map_eq_some_iff.mp h
  cases r with
  | jobSubmitted => cases hr
  | jobLeased | jobRetryScheduled | jobCompleted | jobDead | jobCancelled =>
    rw [WalRecord.jobId] at hjob
    simp [queueOf, WalRecord.jobId, hjob, (Prod.mk.inj hp).2]

inductive PersistOp
  | doSubmit (queue : QueueName) (spec : JobSpec) (permit : OwnedSemaphorePermit)
  | doCancel (id : JobId)
  | tryLeaseJob
  | doWorkerOutcome (id : JobId) (leaseId : LeaseId) (outcome : WorkerOutcome)
  | checkLeaseTimeouts

namespace PersistOp

def run (X : Crates) (config : RuntimeConfig) (env : Env) : PersistOp → CoordM Unit
  | .doSubmit queue spec permit => do
    let _ ← Coordinator.doSubmit X config env queue spec permit
  | .doCancel id => do
    let _ ← Coordinator.doCancel X env id
  | .tryLeaseJob => do
    let _ ← Coordinator.tryLeaseJob X config env
  | .doWorkerOutcome id leaseId outcome =>
    Coordinator.doWorkerOutcome X config env id leaseId outcome
  | .checkLeaseTimeouts => Coordinator.checkLeaseTimeouts X config env

/-- The records an operation persists itself; a submission may go on to lease jobs to
parked workers. -/
def Own : PersistOp → WalRecord → Prop
  | .doSubmit .., r => r.isSubmitted
  | _, _ => True

def endsLease : PersistOp → Bool
  | .doWorkerOutcome .. | .checkLeaseTimeouts => true
  | _ => false

end PersistOp

theorem wp_discard {α : Type} {m : CoordM α} {Q : Coordinator → Prop}
    (h : wp m (fun _ s' => Q s') (fun _ _ => True) s) :
    wp (do let _ ← m) (fun _ s' => Q s') (fun _ _ => True) s :=
  (wp_bind _ _).mpr h

theorem Started.queueOrder (h : Started X config s₀) :
    s₀.queueOrder = config.queueNames ∧ s₀.CursorInside := by
  have hcursor : ∀ l : List String, l = [] ∨ 0 < l.length := fun l => by cases l <;> simp
  cases h <;> exact ⟨rfl, hcursor config.queueNames⟩

/-- A persist call that returns an error leaves its job as it was exactly when the operation
is not the end of a lease. -/
theorem persist_failure_intact_iff (hvalid : config.validate = .ok ())
    (hstart : Started X config s₀) (hrun : Run X P config s₀ s) {op : PersistOp}
    (hexec : op.run X config env s = .ok () s') {r : WalRecord}
    (hr : r ∈ newlyFailed s s') (hown : op.Own r) :
    (∃ q, s.queueOf r = some q ∧ Intact s s' r.jobId q) ↔ op.endsLease = false := by
  have hs := hstart.run_placement hrun
  have hsteps := hstart.run_steps hrun
  have hgone : ∀ {id : JobId}, (s.leases.get id).isSome → s'.leases.get id = none →
      ∀ q, ¬ Intact s s' id q := by
    intro id hsome hnone q hintact
    rw [← hintact.lease, hnone] at hsome
    cases hsome
  cases op with
  | doSubmit queue spec permit =>
    simp only [PersistOp.endsLease, iff_true]
    rcases wp_ok (wp_discard (doSubmit_failure queue spec permit)) hexec with
      ⟨l, hl, hno⟩ | ⟨id, createdAt, e, st, t, rfl⟩
    · rw [newlyFailed_append hl] at hr
      rw [PersistOp.Own, hno r hr] at hown
      cases hown
    · rw [newlyFailed_append (failed_refuse ..), List.mem_singleton] at hr
      subst hr
      exact ⟨queue.asStr, rfl, intact_refuse ..⟩
  | doCancel id =>
    simp only [PersistOp.endsLease, iff_true]
    rcases wp_ok (wp_discard (doCancel_failure id)) hexec with
      hsame | ⟨job, cancelledAt, e, st, t, hjob, rfl⟩
    · rw [newlyFailed_same hsame] at hr
      cases hr
    · rw [newlyFailed_append (failed_refuse ..), List.mem_singleton] at hr
      subst hr
      exact ⟨job.queue.asStr, queueOf_of_place rfl (MemoryStore.place_of_get hjob),
        intact_refuse ..⟩
  | tryLeaseJob =>
    simp only [PersistOp.endsLease, iff_true]
    obtain ⟨horder, hcursor⟩ := hstart.queueOrder
    have hnodup : s.queueOrder.Nodup := by
      rw [Steps.queueOrder hsteps, horder]
      exact RuntimeConfig.queueNames_nodup hvalid
    obtain ⟨⟨l, hl, hintact⟩, _⟩ := wp_ok (wp_discard
      (tryLeaseJob_pass hs hnodup (Steps.cursorInside hsteps hcursor))) hexec
    rw [newlyFailed_append hl] at hr
    obtain ⟨hsub, q, hplace, hi⟩ := hintact r hr
    exact ⟨q, queueOf_of_place hsub hplace, hi⟩
  | doWorkerOutcome id leaseId outcome =>
    simp only [PersistOp.endsLease, Bool.true_eq_false, iff_false, not_exists, not_and]
    rcases wp_ok (doWorkerOutcome_failure id leaseId outcome) hexec with
      hsame | ⟨hsome, r', e, st, t, hid, rfl⟩
    · rw [newlyFailed_same hsame] at hr
      cases hr
    · rw [newlyFailed_append ((failed_refuse ..).trans (by rw [failed_removeLease])),
        List.mem_singleton] at hr
      subst hr
      rw [hid]
      exact fun q _ => hgone hsome (HashMap.get_erase_self ..) q
  | checkLeaseTimeouts =>
    simp only [PersistOp.endsLease, Bool.true_eq_false, iff_false, not_exists, not_and]
    obtain ⟨⟨l, hl, hstrands⟩, _⟩ := wp_ok checkLeaseTimeouts_strands hexec
    rw [newlyFailed_append hl] at hr
    obtain ⟨hsome, hnone⟩ := hstrands r hr
    exact fun q _ => hgone hsome hnone q

/-- The disk is full when a worker cancels its job: nothing changes. -/
theorem persist_failure_intact_cancel :
    ∃ s', (PersistOp.doCancel ⟨1⟩).run Postcard.crates mailConfig
        (mailEnv ⟨2⟩ (.before (.io "disk full"))) mailLeased = .ok () s' ∧
      newlyFailed mailLeased s' = [.jobCancelled ⟨1⟩ ⟨0⟩] ∧
      ∃ q, mailLeased.queueOf (.jobCancelled ⟨1⟩ ⟨0⟩) = some q ∧ Intact mailLeased s' ⟨1⟩ q := by
  obtain ⟨s', hexec, hfailed⟩ : ∃ s', (PersistOp.doCancel ⟨1⟩).run Postcard.crates mailConfig
      (mailEnv ⟨2⟩ (.before (.io "disk full"))) mailLeased = .ok () s' ∧
        newlyFailed mailLeased s' = [.jobCancelled ⟨1⟩ ⟨0⟩] := ⟨_, rfl, rfl⟩
  refine ⟨s', hexec, hfailed, (persist_failure_intact_iff (r := .jobCancelled ⟨1⟩ ⟨0⟩) rfl
    (.fresh mailBoot _ _) (mailLeased_run (fun _ => True) trivial) hexec ?_ trivial).mpr rfl⟩
  rw [hfailed]
  exact List.mem_singleton.mpr rfl

/-- The disk is full when the worker reports success: the job stays `Running`, and its
lease is gone. -/
theorem outcome_failure_strands :
    Run Postcard.crates (fun _ => True) mailConfig mailStart mailLeased ∧
      ∃ s', (PersistOp.doWorkerOutcome ⟨1⟩ ⟨1⟩ .success).run Postcard.crates mailConfig
          (mailEnv ⟨2⟩ (.before (.io "disk full"))) mailLeased = .ok () s' ∧
        newlyFailed mailLeased s' = [.jobCompleted ⟨1⟩ ⟨1⟩ ⟨0⟩] ∧
        (mailLeased.leases.get ⟨1⟩).isSome ∧ s'.leases.get ⟨1⟩ = none ∧
        (s'.store.get ⟨1⟩).map (·.state) = some .running := by
  refine ⟨mailLeased_run _ trivial, _, rfl, rfl, rfl, rfl, rfl⟩

end Coordinator

end DurableQueue
