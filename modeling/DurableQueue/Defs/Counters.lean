import DurableQueue.Defs.StartLaws
import DurableQueue.Defs.Coordinator.Tallies

/-! The counters at the start of a process and in every state that it reaches. -/

namespace DurableQueue

def StatsSnapshot.of (stats : StatsSnapshot) : JobState → Nat
  | .queued => stats.queued
  | .running => stats.running
  | .retryWaiting => stats.retrying
  | .completed => stats.completed
  | .dead => stats.dead
  | .cancelled => stats.cancelled

namespace Coordinator

variable {X : Crates} {P : Fault → Prop} {config : RuntimeConfig} {env : BootEnv}
  {rec : RecoveredState} {s₀ s s' : Coordinator}

/-! ## The counters of a recovered coordinator -/

theorem pushRecovered_of (store : MemoryStore) (jobIds : List JobId) (qs : QueueState)
    (st : JobState) :
    (pushRecovered store jobIds qs).stats.of st = qs.stats.of st + if st = .queued then
      (jobIds.filter fun id => (store.get id).any (·.state = .queued)).length else 0 := by
  rw [pushRecovered_eq]
  cases st <;> simp [QueueStats.of]

theorem countTerminal_of (job : JobRecord) (qs : QueueState) (st : JobState) :
    (countTerminal job qs).stats.of st =
      qs.stats.of st + if job.state = st ∧ st.isTerminal then 1 else 0 := by
  unfold countTerminal
  cases job.state <;> cases st <;> simp [QueueStats.of, JobState.isTerminal]

theorem mem_waitingJobs {job : JobRecord} {id : JobId} {t : UnixMillis} :
    (job, id, t) ∈ waitingJobs rec ↔ (id, t) ∈ rec.retryJobs ∧ rec.store.get id = some job ∧
      job.state = .retryWaiting := by
  rw [waitingJobs, List.mem_filterMap]
  constructor
  · rintro ⟨⟨id', t'⟩, hmem, heq⟩
    dsimp only at heq
    split at heq
    · cases heq
    · rename_i hget
      split at heq
      · rename_i hstate
        cases heq
        exact ⟨hmem, hget, hstate⟩
      · cases heq
  · rintro ⟨hmem, hget, hstate⟩
    exact ⟨(id, t), hmem, by simp [hget, hstate]⟩

theorem sum_ended (env : BootEnv) (rec : RecoveredState) (q : String) (st : JobState) :
    ((((env.order 1).arrange rec.store.values).filter fun job => job.queue.asStr = q).map
        fun job => if job.state = st ∧ st.isTerminal then 1 else 0).sum =
      if st.isTerminal then rec.store.stateIn st q else 0 := by
  have hperm := (((env.order 1).arrange_perm rec.store.values).filter
    fun job => job.queue.asStr = q).map fun job => if job.state = st ∧ st.isTerminal then 1 else 0
  rw [hperm.sum_eq, MemoryStore.stateIn, HashMap.count]
  induction rec.store.values with
  | nil => simp
  | cons job jobs ih =>
    rw [List.filter_cons, List.countP_cons]
    by_cases hq : job.queue.asStr = q <;> by_cases hstate : job.state = st <;>
      cases hst : st.isTerminal <;> simp_all
    omega

section

variable (env : BootEnv) (h : ListsJobs rec.store rec.queuedJobs rec.retryJobs) (q : String)

include h

theorem length_queuedJobs :
    ((rec.queuedJobs.get q).getD []).length = rec.store.stateIn .queued q := by
  refine HashMap.length_eq_count ?_ fun id => ?_
  · cases hget : rec.queuedJobs.get q with
    | none => exact List.nodup_nil
    | some ids => exact h.queued_nodup q ids hget
  · rw [h.queued, MemoryStore.place]
    cases rec.store.get id <;> simp

theorem sum_pushed (st : JobState) :
    ((((env.order 0).arrange rec.queuedJobs.toList).filter fun p => p.1 = q).map fun p =>
        if st = .queued then
          (p.2.filter fun id => (rec.store.get id).any (·.state = .queued)).length else 0).sum =
      if st = .queued then rec.store.stateIn .queued q else 0 := by
  have hperm := ((env.order 0).arrange_perm rec.queuedJobs.toList).filter fun p => p.1 = q
  rw [HashMap.filter_key_toList] at hperm
  refine (hperm.map _).sum_eq.trans ?_
  rw [← length_queuedJobs h q]
  cases hget : rec.queuedJobs.get q with
  | none => simp
  | some ids =>
    simp [h.filter_queued hget]

theorem sum_waiting (st : JobState) :
    (((waitingJobs rec).filter fun p => p.1.queue.asStr = q).map fun _ =>
        if st = .retryWaiting then 1 else 0).sum =
      if st = .retryWaiting then rec.store.stateIn .retryWaiting q else 0 := by
  have hlength : ((waitingJobs rec).filter fun p => p.1.queue.asStr = q).length =
      rec.store.stateIn .retryWaiting q := by
    rw [← List.length_map (fun p : JobRecord × JobId × UnixMillis => p.2.1)]
    refine HashMap.length_eq_count ?_ fun id => ?_
    · have hids : (waitingJobs rec).map (·.2.1) = rec.retryJobs.map Prod.fst := by
        rw [← waitingJobs_ids h, List.map_map]
        rfl
      refine List.Nodup.sublist (List.filter_sublist.map _) ?_
      rw [hids]
      exact h.retry_nodup
    · rw [List.mem_map]
      constructor
      · rintro ⟨⟨job, id', t⟩, hmem, rfl⟩
        obtain ⟨hmem, hq⟩ := List.mem_filter.mp hmem
        obtain ⟨_, hget, hstate⟩ := mem_waitingJobs.mp hmem
        exact ⟨job, hget, by simpa [hstate] using hq⟩
      · rintro ⟨job, hget, hp⟩
        rw [decide_eq_true_eq] at hp
        obtain ⟨⟨id', t⟩, hmem, rfl⟩ := List.mem_map.mp ((h.retry id).mpr
          ⟨q, by rw [MemoryStore.place_of_get hget, hp.1, hp.2]⟩)
        exact ⟨(job, id', t), List.mem_filter.mpr
          ⟨mem_waitingJobs.mpr ⟨hmem, hget, hp.1⟩, by simpa using hp.2⟩, rfl⟩
  rw [List.map_const', List.sum_replicate, hlength]
  split <;> simp

theorem of_recoveredQueues (queues : HashMap String QueueState) (st : JobState) :
    ((recoveredQueues env rec queues).get q).map (·.stats.of st) =
      (queues.get q).map fun qs => qs.stats.of st + rec.store.stateIn st q := by
  have hsettled : rec.store.stateIn .running q = 0 := by
    refine List.countP_eq_zero.mpr fun job hjob => ?_
    obtain ⟨id, hget⟩ := HashMap.mem_values.mp hjob
    have hplace := h.settled id q
    rw [MemoryStore.place_of_get hget] at hplace
    simpa using hplace
  have hadd : ∀ (m : HashMap String QueueState) (c : Nat),
      (m.get q).map (fun qs => qs.stats.of st + c) =
        ((m.get q).map (·.stats.of st)).map (· + c) := fun m c => by
    rw [Option.map_map]
    rfl
  unfold recoveredQueues
  rw [HashMap.map_get_foldl_modify_add (fun job : JobRecord => job.queue.asStr) countTerminal
      (fun job qs => countTerminal_of job qs st), sum_ended env rec q st, hadd,
    HashMap.map_get_foldl_modify_add
      (fun p : JobRecord × JobId × UnixMillis => p.1.queue.asStr)
      (fun _ (qs : QueueState) =>
        { qs with stats := { qs.stats with retrying := qs.stats.retrying + 1 } })
      (w := fun _ => if st = .retryWaiting then 1 else 0)
      (fun _ qs => by cases st <;> rfl), sum_waiting h q st, hadd,
    HashMap.map_get_foldl_modify_add Prod.fst
      (fun p : String × List JobId => pushRecovered rec.store p.2)
      (fun p qs => pushRecovered_of rec.store p.2 qs st), sum_pushed env h q st, Option.map_map,
    Option.map_map]
  cases queues.get q with
  | none => rfl
  | some qs => cases st <;> simp [JobState.isTerminal, hsettled]

end

theorem submitted_recoveredQueues (env : BootEnv) (rec : RecoveredState)
    (queues : HashMap String QueueState) (q : String) :
    ((recoveredQueues env rec queues).get q).map (·.stats.submitted) =
      (queues.get q).map (·.stats.submitted) := by
  have hpush : ∀ (ids : List JobId) (qs : QueueState),
      (pushRecovered rec.store ids qs).stats.submitted = qs.stats.submitted := by
    intro ids
    induction ids with
    | nil => exact fun _ => rfl
    | cons id ids ih =>
      intro qs
      refine (ih _).trans ?_
      dsimp only
      split <;> rfl
  have hcount : ∀ (job : JobRecord) (qs : QueueState),
      (countTerminal job qs).stats.submitted = qs.stats.submitted := by
    intro job qs
    unfold countTerminal
    split <;> rfl
  unfold recoveredQueues
  refine (HashMap.map_get_foldl_modify (fun job : JobRecord => job.queue.asStr)
    countTerminal hcount _ _ q).trans ?_
  refine (HashMap.map_get_foldl_modify
    (fun p : JobRecord × JobId × UnixMillis => p.1.queue.asStr)
    (fun _ (qs : QueueState) =>
      { qs with stats := { qs.stats with retrying := qs.stats.retrying + 1 } })
    (fun _ _ => rfl) _ _ q).trans ?_
  exact HashMap.map_get_foldl_modify Prod.fst
    (fun p : String × List JobId => pushRecovered rec.store p.2) (fun p qs => hpush p.2 qs) _ _ q

/-! ## The counters at the start -/

theorem Started.tallies (h : Started X config s₀) : Tallies s₀ s₀ := by
  cases h with
  | fresh env storage semaphores =>
    refine ⟨fun q qs hqs st => ?_, fun q qs hqs => ?_, ?_⟩
    · rw [get_freshQueues hqs]
      cases st <;> rfl
    · rw [get_freshQueues hqs]
      rfl
    · rw [submittedSum, HashMap.sum_values_eq_zero fun q qs hqs => by rw [get_freshQueues hqs]]
      rfl
  | @recovered env storage semaphores rec walFile file hrec hids =>
    have hlists := (recover_recovers hids hrec).lists
    have hzero : ∀ q qs, (newWithRecovery env config storage semaphores (some rec)).queues.get q =
        some qs → qs.stats.submitted = 0 := by
      intro q qs hqs
      have hsub := submitted_recoveredQueues env rec
        (HashMap.ofList (config.queues.map fun qc => (qc.name.asStr, ({} : QueueState)))) q
      change (recoveredQueues env rec _).get q = some qs at hqs
      rw [hqs] at hsub
      obtain ⟨qs', hqs', heq⟩ := Option.map_eq_some_iff.mp hsub.symm
      rw [get_freshQueues hqs'] at heq
      exact heq.symm
    refine ⟨fun q qs hqs st => ?_, fun q qs hqs => ?_, ?_⟩
    · have hof := of_recoveredQueues env hlists q
        (HashMap.ofList (config.queues.map fun qc => (qc.name.asStr, ({} : QueueState)))) st
      change (recoveredQueues env rec _).get q = some qs at hqs
      rw [hqs] at hof
      obtain ⟨qs', hqs', heq⟩ := Option.map_eq_some_iff.mp hof.symm
      rw [get_freshQueues hqs'] at heq
      refine heq.symm.trans ?_
      cases st <;> exact Nat.zero_add _
    · rw [hzero q qs hqs, Nat.zero_add]
    · rw [submittedSum, HashMap.sum_values_eq_zero hzero]
      rfl

theorem Steps.tallies (h : Steps X P s s') (hs : Placement config s) (htally : Tallies s₀ s) :
    Tallies s₀ s' := by
  induction h with
  | refl => exact htally
  | tail hsteps hstep ih => exact hstep.tallies (Steps.placement hsteps hs) ih

theorem Started.run_tallies (h : Started X config s₀) (hrun : Run X P config s₀ s) :
    Tallies s₀ s :=
  Steps.tallies (h.run_steps hrun) h.placement h.tallies

/-! ## The state counters -/

theorem doStats_of (hs : Tallies s₀ s) (st : JobState) :
    s.doStats.of st = (s.queues.keys.map (s.store.stateIn st)).sum := by
  have hsum : s.doStats.of st = (s.queues.toList.map fun p => p.2.stats.of st).sum := by
    cases st <;> simp [doStats, StatsSnapshot.of, QueueStats.of, Function.comp_def]
  have hkeys : s.queues.keys = s.queues.toList.map Prod.fst := by
    simp [HashMap.keys, HashMap.toList, AList.keys, List.keys, Function.comp_def]
  rw [hsum, hkeys, List.map_map]
  congr 1
  refine List.map_congr_left fun p hp => ?_
  exact hs.states p.1 p.2 (HashMap.mem_toList.mp hp) st

/-- In every state a process reaches, however its persist calls go, each configured queue
counts its jobs by their states.  The counter that a job is about to leave is never zero,
also in the middle of an operation; and a snapshot sums up what is in the store. -/
theorem counters_equal_store (hstart : Started X config s₀) (hrun : Run X P config s₀ s) :
    (∀ q, (s.queues.get q).isSome = (config.capacity q).isSome) ∧
      (∀ q qs, s.queues.get q = some qs → ∀ st, qs.stats.of st = s.store.stateIn st q) ∧
      (∀ s', Steps X P s s' → ∀ id job qs, s'.store.get id = some job →
        s'.queues.get job.queue.asStr = some qs → 0 < qs.stats.of job.state) ∧
      ∀ st, s.doStats.of st = (s.queues.keys.map (s.store.stateIn st)).sum := by
  have hplacement := hstart.run_placement hrun
  have htally := hstart.run_tallies hrun
  refine ⟨hplacement.queues, htally.states, ?_, doStats_of htally⟩
  intro s' hsteps id job qs hjob hqs
  rw [(Steps.tallies hsteps hplacement htally).states _ qs hqs]
  exact MemoryStore.stateIn_pos hjob

/-- A job that is back in its queue after a retry, and the same for a recovered job that
was cancelled. -/
theorem counters_equal_store_mail :
    mailRequeued.doStats.queued = (mailRequeued.queues.keys.map
        (mailRequeued.store.stateIn .queued)).sum ∧ mailRequeued.doStats.queued = 1 ∧
      mailForgotten.doStats.cancelled = (mailForgotten.queues.keys.map
        (mailForgotten.store.stateIn .cancelled)).sum ∧ mailForgotten.doStats.cancelled = 1 := by
  obtain ⟨_, _, _, hrequeued⟩ := counters_equal_store (.fresh mailBoot _ _)
    (mailRequeued_run (fun _ => True) trivial)
  obtain ⟨_, _, _, hforgotten⟩ := counters_equal_store mailRestarted_boots.started
    (mailForgotten_run (fun _ => True) trivial)
  exact ⟨hrequeued .queued, by decide +kernel, hforgotten .cancelled, by decide +kernel⟩

/-! ## The submission counters -/

theorem countP_isSubmitted (rs : List WalRecord) :
    rs.countP (·.isSubmitted) = (submittedIds rs).length := by
  induction rs with
  | nil => rfl
  | cons r rs ih =>
    rw [List.countP_cons, ih]
    cases r <;> rfl

theorem Started.submitted_eq_zero (h : Started X config s₀) :
    s₀.globalStats.submitted = 0 ↔ ∀ id, s₀.store.get id = none := by
  cases h with
  | fresh => exact ⟨fun _ _ => rfl, fun _ => rfl⟩
  | @recovered env storage semaphores rec walFile file hrec hids =>
    have hrecovers := recover_recovers hids hrec
    have htracked := tracked_reconciled env.recovery hids
    change rec.submitted = 0 ↔ ∀ id, rec.store.get id = none
    rw [hrecovers.counted.1, countP_isSubmitted, List.length_eq_zero_iff,
      List.eq_nil_iff_forall_not_mem]
    refine forall_congr' fun id => ?_
    rw [htracked.ids, htracked.store, ← hrecovers.store]
    cases rec.store.get id <;> simp

/-- In every state a process reaches: the snapshot's numbers of submissions agree with the
jobs, queue by queue and in total, exactly if the process started without any job. -/
theorem submissions_conserved_iff (hstart : Started X config s₀) (hrun : Run X P config s₀ s) :
    ((∀ p ∈ s.doStats.perQueue, p.2.submitted = p.2.total) ∧
        s.doStats.submitted = (s.doStats.perQueue.map (·.2.submitted)).sum) ↔
      ∀ id, s₀.store.get id = none := by
  have htally := hstart.run_tallies hrun
  have hsum : (s.doStats.perQueue.map (·.2.submitted)).sum = s.submittedSum := by
    rw [doStats, submittedSum, HashMap.values, HashMap.toList, List.map_map, List.map_map,
      List.map_map]
    rfl
  have hglobal : s.doStats.submitted = s₀.globalStats.submitted + s.submittedSum := htally.global
  rw [hsum, hglobal, ← hstart.submitted_eq_zero]
  constructor
  · rintro ⟨_, heq⟩
    omega
  · intro hzero
    refine ⟨?_, by rw [hzero, Nat.zero_add]⟩
    intro p hp
    obtain ⟨⟨q, qs⟩, hqs, rfl⟩ := List.mem_map.mp hp
    rw [HashMap.mem_toList] at hqs
    have hnone := hstart.submitted_eq_zero.mp hzero
    have hjobs : s₀.store.jobsIn q = 0 := by
      refine List.countP_eq_zero.mpr fun job hjob => ?_
      obtain ⟨id, hget⟩ := HashMap.mem_values.mp hjob
      rw [hnone id] at hget
      cases hget
    have hsubmitted := htally.submitted q qs hqs
    have hstates := htally.states q qs hqs
    rw [hjobs, Nat.add_zero, MemoryStore.jobsIn_eq, ← hstates, ← hstates, ← hstates, ← hstates,
      ← hstates, ← hstates] at hsubmitted
    exact hsubmitted

/-- Before the restart the numbers agree. -/
theorem submissions_conserved_requeued :
    mailRequeued.doStats.submitted = (mailRequeued.doStats.perQueue.map (·.2.submitted)).sum :=
  ((submissions_conserved_iff (.fresh mailBoot _ _)
    (mailRequeued_run (fun _ => True) trivial)).mpr fun _ => rfl).2

/-- After it, the one job is counted in total but not in its queue. -/
theorem recovered_submission_uncounted :
    Boots Postcard.crates mailConfig mailRestarted ∧
      mailRestarted.doStats.perQueue = [("mail", { submitted := 0, queued := 1 })] ∧
      mailRestarted.doStats.submitted = 1 :=
  ⟨mailRestarted_boots, by decide +kernel, by decide +kernel⟩

end Coordinator

end DurableQueue
