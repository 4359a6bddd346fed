import DurableQueue.Defs.Recovered
import DurableQueue.Defs.Coordinator.OpsLaws
import DurableQueue.Defs.Wal.WriterLaws

/-! What a start establishes, from nothing or from a recovered state, and where jobs are
held in every state a process reaches. -/

namespace DurableQueue

namespace RuntimeConfig

variable (config : RuntimeConfig)

theorem isSome_get_queues {ν : Type} (f : QueueConfig → ν) (q : String) :
    ((HashMap.ofList (config.queues.map fun qc => (qc.name.asStr, f qc))).get q).isSome =
      (config.capacity q).isSome := by
  rw [Bool.eq_iff_iff, capacity, HashMap.isSome_get_ofList, HashMap.isSome_get_ofList,
    List.map_map, List.map_map]
  rfl

end RuntimeConfig

namespace Coordinator

variable {X : Crates} {P : Fault → Prop} {config : RuntimeConfig} {env : BootEnv}
  {storage : Storage} {semaphores : HashMap String Semaphore} {rec : RecoveredState}

/-! ## The deques of a recovered coordinator -/

theorem get_freshQueues {q : String} {qs : QueueState}
    (h : (HashMap.ofList (config.queues.map fun qc =>
      (qc.name.asStr, ({} : QueueState)))).get q = some qs) : qs = {} := by
  obtain ⟨qc, _, heq⟩ := List.mem_map.mp (HashMap.mem_of_get_ofList h)
  exact (Prod.mk.inj heq).2.symm

theorem pushRecovered_eq (store : MemoryStore) (jobIds : List JobId) (qs : QueueState) :
    pushRecovered store jobIds qs =
      { ready := qs.ready ++ jobIds.filter fun id => (store.get id).any (·.state = .queued)
        stats := { qs.stats with queued := qs.stats.queued +
          (jobIds.filter fun id => (store.get id).any (·.state = .queued)).length } } := by
  induction jobIds generalizing qs with
  | nil => simp [pushRecovered]
  | cons id jobIds ih =>
    rw [pushRecovered, List.foldl_cons]
    refine (ih _).trans ?_
    rw [List.filter_cons]
    split
    · simp [Nat.add_assoc, Nat.add_comm 1]
    · rfl

theorem pushRecovered_ready (store : MemoryStore) (jobIds : List JobId) (qs : QueueState) :
    (pushRecovered store jobIds qs).ready =
      qs.ready ++ jobIds.filter fun id => (store.get id).any (·.state = .queued) := by
  rw [pushRecovered_eq]

theorem countTerminal_ready (job : JobRecord) (qs : QueueState) :
    (countTerminal job qs).ready = qs.ready := by
  unfold countTerminal
  split <;> rfl

theorem ready_recoveredQueues (env : BootEnv) (h : ListsJobs rec.store rec.queuedJobs rec.retryJobs)
    {queues : HashMap String QueueState}
    (hfresh : ∀ q qs, queues.get q = some qs → qs.ready = []) (q : String) :
    ((recoveredQueues env rec queues).get q).map (·.ready) =
      (queues.get q).map fun _ => (rec.queuedJobs.get q).getD [] := by
  have hkeys : (((env.order 0).arrange rec.queuedJobs.toList).map Prod.fst).Nodup :=
    (IterOrder.nodup_map_arrange _).mpr (HashMap.nodup_keys_toList rec.queuedJobs)
  unfold recoveredQueues
  -- the second and the third loop only count
  refine (HashMap.map_get_foldl_modify (fun job : JobRecord => job.queue.asStr)
    countTerminal countTerminal_ready _ _ q).trans ?_
  refine (HashMap.map_get_foldl_modify
    (fun p : JobRecord × JobId × UnixMillis => p.1.queue.asStr)
    (fun _ (qs : QueueState) =>
      { qs with stats := { qs.stats with retrying := qs.stats.retrying + 1 } })
    (fun _ _ => rfl) _ _ q).trans ?_
  cases hget : rec.queuedJobs.get q with
  | none =>
    have hnot : q ∉ ((env.order 0).arrange rec.queuedJobs.toList).map Prod.fst := by
      intro hmem
      obtain ⟨⟨q', ids⟩, hp, rfl⟩ := List.mem_map.mp hmem
      rw [IterOrder.mem_arrange, HashMap.mem_toList, hget] at hp
      cases hp
    rw [HashMap.get_foldl_modify_of_notMem Prod.fst
      (fun p : String × List JobId => pushRecovered rec.store p.2) hnot]
    cases hq : queues.get q with
    | none => rfl
    | some qs => simp [hfresh q qs hq]
  | some ids =>
    have hmem : (q, ids) ∈ (env.order 0).arrange rec.queuedJobs.toList := by
      rw [IterOrder.mem_arrange, HashMap.mem_toList]
      exact hget
    rw [HashMap.get_foldl_modify_of_mem Prod.fst
      (fun p : String × List JobId => pushRecovered rec.store p.2) hkeys hmem]
    cases hq : queues.get q with
    | none => rfl
    | some qs => simp [hfresh q qs hq, pushRecovered_ready, h.filter_queued hget]

theorem waitingJobs_ids (h : ListsJobs rec.store rec.queuedJobs rec.retryJobs) :
    (waitingJobs rec).map (·.2) = rec.retryJobs := by
  have hall := fun p => h.get_retry (p := p)
  unfold waitingJobs
  generalize rec.retryJobs = l at hall
  induction l with
  | nil => rfl
  | cons p l ih =>
    obtain ⟨job, hjob, hstate⟩ := hall p (by simp)
    simp only [List.filterMap_cons, hjob, hstate, if_true, List.map_cons,
      ih (fun p' hp' => hall p' (by simp [hp']))]

/-! ## Placement at the start -/

theorem placement_fresh :
    Placement config (newWithRecovery env config storage semaphores none) where
  queues q := config.isSome_get_queues (fun _ => ({} : QueueState)) q
  configured id st q hplace := by cases hplace
  ready_nodup q qs hqs := by rw [get_freshQueues hqs]; exact List.nodup_nil
  mem_ready q qs id hqs := by
    rw [get_freshQueues hqs]
    simp [newWithRecovery, MemoryStore.place]
  waiting id q hplace := by cases hplace
  heap e he := by cases he
  leased id lease hl := by cases hl
  running _ _ id q hplace := by cases hplace

theorem ready_newWithRecovery (h : ListsJobs rec.store rec.queuedJobs rec.retryJobs) (q : String) :
    ((newWithRecovery env config storage semaphores (some rec)).queues.get q).map (·.ready) =
      (config.capacity q).map fun _ => (rec.queuedJobs.get q).getD [] := by
  have hfresh : ∀ q qs, (HashMap.ofList (config.queues.map fun qc =>
      (qc.name.asStr, ({} : QueueState)))).get q = some qs → qs.ready = [] :=
    fun _ _ hqs => by rw [get_freshQueues hqs]
  refine (ready_recoveredQueues env h hfresh q).trans ?_
  have hsome := config.isSome_get_queues (fun _ => ({} : QueueState)) q
  cases hcap : config.capacity q with
  | none =>
    rw [hcap, Option.isSome_none, Option.isSome_eq_false_iff, Option.isNone_iff_eq_none] at hsome
    rw [hsome]
    rfl
  | some c =>
    rw [hcap, Option.isSome_some, Option.isSome_iff_exists] at hsome
    obtain ⟨qs, hqs⟩ := hsome
    rw [hqs]
    rfl

theorem ready_eq_queuedJobs (h : ListsJobs rec.store rec.queuedJobs rec.retryJobs) {q : String}
    {qs : QueueState}
    (hqs : (newWithRecovery env config storage semaphores (some rec)).queues.get q = some qs) :
    qs.ready = (rec.queuedJobs.get q).getD [] := by
  have hq := congrArg (Option.map (·.ready)) hqs
  rw [ready_newWithRecovery h, Option.map_some] at hq
  obtain ⟨_, _, heq⟩ := Option.map_eq_some_iff.mp hq
  exact heq.symm

theorem placement_recovered {rs : List WalRecord}
    (h : Recovers env.recovery config rs rec) :
    Placement config (newWithRecovery env config storage semaphores (some rec)) := by
  have hids : ((newWithRecovery env config storage semaphores (some rec)).retryQueue.map
      (·.jobId)) = rec.retryJobs.map Prod.fst := by
    rw [← waitingJobs_ids h.lists]
    simp [newWithRecovery, Function.comp_def]
  have hqueues : ∀ q, ((newWithRecovery env config storage semaphores (some rec)).queues.get
      q).isSome = (config.capacity q).isSome := by
    intro q
    have hsome := congrArg Option.isSome
      (@ready_newWithRecovery config env storage semaphores rec h.lists q)
    rwa [Option.isSome_map, Option.isSome_map] at hsome
  refine
    { queues := hqueues
      configured := ?_
      ready_nodup := ?_
      mem_ready := ?_
      waiting := ?_
      heap := ?_
      leased := fun id lease hl => by cases hl
      running := fun _ _ id q hplace => absurd hplace (h.lists.settled id q) }
  · intro id st q hplace hst
    rw [hqueues]
    exact h.fits.configured id st q hplace hst
  · intro q qs hqs
    rw [ready_eq_queuedJobs h.lists hqs]
    cases hget : rec.queuedJobs.get q with
    | none => exact List.nodup_nil
    | some ids => exact h.lists.queued_nodup q ids hget
  · intro q qs id hqs
    rw [ready_eq_queuedJobs h.lists hqs]
    exact h.lists.queued q id
  · intro id q hplace
    rw [hids]
    exact List.count_eq_one_of_mem h.lists.retry_nodup ((h.lists.retry id).mpr ⟨q, hplace⟩)
  · intro e he
    have hmem : e.jobId ∈ rec.retryJobs.map Prod.fst := by
      rw [← hids]
      exact List.mem_map.mpr ⟨e, he, rfl⟩
    obtain ⟨q, hplace⟩ := (h.lists.retry e.jobId).mp hmem
    exact ⟨q, Or.inl hplace⟩

end Coordinator

/-! ## A small system -/

def mailConfig : RuntimeConfig where
  queues := [⟨⟨"mail"⟩, 1⟩]
  channelCapacity := 8
  workerConcurrency := 1
  visibilityTimeout := .fromSecs 30
  retry := ⟨.fromMillis 100, .fromSecs 60, .none⟩
  shutdownTimeout := .fromSecs 30

def mailBoot : BootEnv where
  recovery := ⟨⟨0⟩, fun _ => .asIs⟩
  now := ⟨0⟩
  wallNow := ⟨0⟩
  order := fun _ => .asIs

/-- Surroundings in which every clock stands still and every persist call ends the same way. -/
def mailEnv (id : JobId) (fault : Fault) : Env where
  instant := fun _ => ⟨0⟩
  wall := fun _ => ⟨0⟩
  uuid := fun _ => id
  rng := fun _ => ⟨fun _ => 0, fun _ => UInt64.zero_le⟩
  fate := fun _ => .returns fault
  order := fun _ => .asIs

def Coordinator.after (X : Crates) (config : RuntimeConfig) (env : Env) (op : Op)
    (s : Coordinator) : Coordinator :=
  match Coordinator.exec X config env op s with
  | .ok _ s' => s'
  | .error _ s' => s'

theorem Coordinator.exec_eq_after {X : Crates} {config : RuntimeConfig} {env : Env} {op : Op}
    {s : Coordinator} (h : (match exec X config env op s with
      | .ok _ _ => true
      | .error _ _ => false) = true) :
    exec X config env op s = .ok () (after X config env op s) := by
  unfold after
  split at h
  · rename_i heq
    rw [heq]
  · cases h

namespace Coordinator

def mailStart : Coordinator :=
  newWithRecovery mailBoot mailConfig (.wal WriterThread.fresh) (newSemaphores mailConfig) none

def mailAcquired : Coordinator := acquire "mail" mailStart

def mailSubmitted : Coordinator :=
  after Postcard.crates mailConfig (mailEnv ⟨1⟩ .none)
    (.handle (.submit ⟨"mail"⟩ ⟨[1, 2], 3⟩ ⟨"mail"⟩ 0)) mailAcquired

def mailLeased : Coordinator :=
  after Postcard.crates mailConfig (mailEnv ⟨2⟩ .none) (.handle (.fetchWork 1)) mailSubmitted

def mailRetried : Coordinator :=
  after Postcard.crates mailConfig (mailEnv ⟨2⟩ .none)
    (.handle (.workerOutcome ⟨1⟩ ⟨1⟩ .retryable)) mailLeased

def mailRequeued : Coordinator :=
  after Postcard.crates mailConfig
    { mailEnv ⟨2⟩ .none with instant := fun _ => ⟨10 ^ 9⟩ } .processDueRetries mailRetried

section

variable (P : Fault → Prop) (hP : P .none)

theorem mailAcquired_step : ProcStep Postcard.crates P mailConfig mailStart mailAcquired :=
  .acquire (show _ = some (Semaphore.new 1) from rfl) (by decide) rfl

include hP

theorem mailSubmitted_step :
    ProcStep Postcard.crates P mailConfig mailAcquired mailSubmitted := by
  have henabled : (Op.handle (.submit ⟨"mail"⟩ ⟨[1, 2], 3⟩ ⟨"mail"⟩ 0)).Enabled P
      (mailEnv ⟨1⟩ .none) mailAcquired :=
    ⟨rfl, ⟨by decide, rfl⟩, fun _ => hP, fun _ => rfl⟩
  exact .exec henabled rfl

theorem mailLeased_step : ProcStep Postcard.crates P mailConfig mailSubmitted mailLeased := by
  have henabled : (Op.handle (.fetchWork 1)).Enabled P (mailEnv ⟨2⟩ .none) mailSubmitted :=
    ⟨rfl, trivial, fun _ => hP, fun _ => rfl⟩
  exact .exec henabled rfl

theorem mailRetried_step : ProcStep Postcard.crates P mailConfig mailLeased mailRetried := by
  have henabled : (Op.handle (.workerOutcome ⟨1⟩ ⟨1⟩ .retryable)).Enabled P
      (mailEnv ⟨2⟩ .none) mailLeased :=
    ⟨rfl, trivial, fun _ => hP, fun _ => rfl⟩
  exact .exec henabled rfl

theorem mailRequeued_step : ProcStep Postcard.crates P mailConfig mailRetried mailRequeued := by
  have henabled : Op.processDueRetries.Enabled P
      { mailEnv ⟨2⟩ .none with instant := fun _ => ⟨10 ^ 9⟩ } mailRetried :=
    ⟨rfl, trivial, fun _ => hP, fun _ => rfl⟩
  exact .exec henabled rfl

theorem mailLeased_run : Relation.ReflTransGen (ProcStep Postcard.crates P mailConfig)
    mailStart mailLeased :=
  ((Relation.ReflTransGen.single (mailAcquired_step P)).tail (mailSubmitted_step P hP)).tail
    (mailLeased_step P hP)

theorem mailRequeued_run : Relation.ReflTransGen (ProcStep Postcard.crates P mailConfig)
    mailStart mailRequeued :=
  ((mailLeased_run P hP).tail (mailRetried_step P hP)).tail (mailRequeued_step P hP)

end

/-! ## Placement in every reachable state -/

variable {X : Crates} {P : Fault → Prop} {config : RuntimeConfig} {s₀ s : Coordinator}

inductive Started (X : Crates) (config : RuntimeConfig) : Coordinator → Prop
  | fresh (env : BootEnv) (storage : Storage) (semaphores : HashMap String Semaphore) :
      Started X config (newWithRecovery env config storage semaphores none)
  | recovered (env : BootEnv) (storage : Storage) (semaphores : HashMap String Semaphore)
      {rec : RecoveredState} {walFile : Option (List UInt8)} {file : List UInt8}
      (hrec : recover X env.recovery config walFile = (.ok rec, file))
      (hids : (submittedIds (logOf X walFile)).Nodup) :
      Started X config (newWithRecovery env config storage semaphores (some rec))

abbrev Run (X : Crates) (P : Fault → Prop) (config : RuntimeConfig) :
    Coordinator → Coordinator → Prop :=
  Relation.ReflTransGen (ProcStep X P config)

def submitJob (config : RuntimeConfig) (queue : String) (id : JobId) (s : Coordinator) :
    Coordinator :=
  after Postcard.crates config (mailEnv id .none)
    (.handle (.submit ⟨queue⟩ ⟨[1, 2], 3⟩ ⟨queue⟩ 0)) (acquire queue s)

theorem submitJob_run (hP : P .none) (queue : String) (id : JobId) {sem : Semaphore}
    (hsem : s.semaphores.get queue = some sem) (havail : 0 < sem.available)
    (hopen : sem.closed = false) (hrunning : s.exited = false) (hfresh : s.store.get id = none)
    (hexec : exec Postcard.crates config (mailEnv id .none)
      (.handle (.submit ⟨queue⟩ ⟨[1, 2], 3⟩ ⟨queue⟩ 0)) (acquire queue s) =
        .ok () (submitJob config queue id s)) :
    Run Postcard.crates P config s (submitJob config queue id s) := by
  refine (Relation.ReflTransGen.single (.acquire hsem havail hopen)).tail (.exec ?_ hexec)
  exact ⟨hrunning, ⟨List.mem_cons_self, rfl⟩, fun _ => hP, fun _ => hfresh⟩

theorem Started.placement (h : Started X config s₀) : Placement config s₀ := by
  cases h with
  | fresh => exact placement_fresh
  | recovered env storage semaphores hrec hids =>
    exact placement_recovered (recover_recovers hids hrec)

theorem Started.run_steps (h : Started X config s₀) (hrun : Run X P config s₀ s) :
    Steps X P s₀ s :=
  steps_of_run hrun h.placement

theorem Started.run_placement (h : Started X config s₀) (hrun : Run X P config s₀ s) :
    Placement config s :=
  Steps.placement (h.run_steps hrun) h.placement

def places (s : Coordinator) (id : JobId) : Nat :=
  (s.queues.values.map fun qs => qs.ready.count id).sum + s.waitingIds.count id +
    if (s.leases.get id).isSome then 1 else 0

namespace Placement

variable (h : Placement config s) {id : JobId}

include h

theorem count_ready {q : String} {qs : QueueState} (hqs : s.queues.get q = some qs) :
    qs.ready.count id = if s.store.place id = some (.queued, q) then 1 else 0 := by
  split
  · rename_i hplace
    exact List.count_eq_one_of_mem (h.ready_nodup q qs hqs) ((h.mem_ready q qs id hqs).mpr hplace)
  · rename_i hplace
    exact List.count_eq_zero.mpr fun hmem => hplace ((h.mem_ready q qs id hqs).mp hmem)

theorem sum_ready {st : JobState} {q : String} (hplace : s.store.place id = some (st, q)) :
    (s.queues.values.map fun qs => qs.ready.count id).sum = if st = .queued then 1 else 0 := by
  split
  · rename_i hst
    subst hst
    obtain ⟨qs, hqs⟩ := Option.isSome_iff_exists.mp (h.configured id _ q hplace rfl)
    rw [HashMap.sum_values_eq hqs, h.count_ready hqs, if_pos hplace]
    intro q' qs' hne hqs'
    rw [h.count_ready hqs', if_neg]
    intro heq
    rw [hplace] at heq
    exact hne (Prod.mk.inj (Option.some.inj heq)).2.symm
  · rename_i hst
    refine HashMap.sum_values_eq_zero fun q' qs' hqs' => ?_
    rw [h.count_ready hqs', if_neg]
    intro heq
    rw [hplace] at heq
    exact hst (Prod.mk.inj (Option.some.inj heq)).1

theorem count_waiting {st : JobState} {q : String} (hplace : s.store.place id = some (st, q))
    (hlive : st.isTerminal = false) :
    s.waitingIds.count id = if st = .retryWaiting then 1 else 0 := by
  split
  · rename_i hst
    subst hst
    exact h.waiting id q hplace
  · rename_i hst
    refine List.count_eq_zero.mpr fun hmem => ?_
    obtain ⟨e, he, rfl⟩ := List.mem_map.mp hmem
    obtain ⟨q', hw | hc⟩ := h.heap e he
    · rw [hplace] at hw
      exact hst (Prod.mk.inj (Option.some.inj hw)).1
    · rw [hplace] at hc
      rw [(Prod.mk.inj (Option.some.inj hc)).1] at hlive
      cases hlive

theorem isSome_lease {st : JobState} {q : String} (hplace : s.store.place id = some (st, q))
    (hfailed : s.failed = []) (hexited : s.exited = false) :
    (s.leases.get id).isSome = decide (st = .running) := by
  rw [Bool.eq_iff_iff, decide_eq_true_iff, Option.isSome_iff_exists]
  constructor
  · rintro ⟨lease, hl⟩
    obtain ⟨⟨q', hrun⟩, _⟩ := h.leased id lease hl
    rw [hplace] at hrun
    exact (Prod.mk.inj (Option.some.inj hrun)).1
  · rintro rfl
    exact h.running hfailed hexited id q hplace

theorem places_eq_one (hfailed : s.failed = []) (hexited : s.exited = false) {job : JobRecord}
    (hjob : s.store.get id = some job) (hlive : job.isLive) : s.places id = 1 := by
  have hplace := MemoryStore.place_of_get hjob
  have hlive : job.state.isTerminal = false := by simpa [JobRecord.isLive] using hlive
  rw [places, h.sum_ready hplace, h.count_waiting hplace hlive,
    h.isSome_lease hplace hfailed hexited]
  cases hstate : job.state <;> simp_all [JobState.isTerminal]

end Placement

/-- In every state a process reaches, however its persist calls go, the deques, the heap
and the lease map hold the jobs they should; and as long as no persist call has failed,
every live job is held in exactly one place. -/
theorem placement_reachable (hstart : Started X config s₀) (hrun : Run X P config s₀ s) :
    Placement config s ∧
      (s.failed = [] → s.exited = false → ∀ id job, s.store.get id = some job → job.isLive →
        s.places id = 1) := by
  have hplacement := hstart.run_placement hrun
  exact ⟨hplacement, fun hfailed hexited id job hjob hlive =>
    hplacement.places_eq_one hfailed hexited hjob hlive⟩

/-- A job that was submitted and then fetched is held by its lease alone. -/
theorem placement_reachable_leased :
    Placement mailConfig mailLeased ∧ mailLeased.places ⟨1⟩ = 1 := by
  obtain ⟨hplacement, hone⟩ := placement_reachable (.fresh mailBoot _ _)
    (mailLeased_run (fun _ => True) trivial)
  exact ⟨hplacement, hone rfl rfl ⟨1⟩ ⟨⟨1⟩, ⟨"mail"⟩, ⟨[1, 2], 3⟩, .running, 1, ⟨0⟩⟩ rfl rfl⟩

/-! ## Memory and log -/

theorem Started.journal (h : Started X config s₀) : s₀.journal = [] := by
  cases h <;> rfl

/-- In every state a process reaches, however its persist calls go, memory is the replay of
the acknowledged records on top of the store the process started with, up to due retries;
and no acknowledged record has been refused by the store, not even in an operation that the
process did not survive. -/
theorem memory_is_replay (hstart : Started X config s₀) (hrun : Run X P config s₀ s) :
    s.store.UpToRequeue (s₀.store.replay s.acked) ∧ s.diverged = [] ∧
      ∀ op env c s', op.Enabled P env s → exec X config env op s = .error c s' →
        s'.diverged = [] := by
  have hjournal := hstart.journal
  have hacked : s₀.acked = [] := by simp [acked, hjournal]
  have hdiverged : s₀.diverged = [] := by simp [diverged, hjournal]
  obtain ⟨hreplay, hsame⟩ := Steps.replays (hstart.run_steps hrun) hacked
  refine ⟨hreplay, hsame.trans hdiverged, ?_⟩
  intro op env c s' henabled hcrash
  obtain ⟨s₁, hsteps, hdies⟩ :=
    wp_error (exec_takes (hstart.run_placement hrun) henabled) hcrash
  have hsame₁ : s₁.diverged = [] :=
    (Steps.replays ((hstart.run_steps hrun).trans hsteps) hacked).2.trans hdiverged
  cases hdies with
  | append hoffers _ _ => rw [hoffers.diverged, hsame₁]
  | panic _ hjournal => rw [diverged, hjournal, ← diverged, hsame₁]

/-- A job that is back in its queue in memory still waits in the replay. -/
theorem memory_is_replay_requeued :
    mailRequeued.store.UpToRequeue (mailStart.store.replay mailRequeued.acked) ∧
      mailRequeued.diverged = [] ∧
      (mailRequeued.store.get ⟨1⟩).map (·.state) = some .queued ∧
      ((mailStart.store.replay mailRequeued.acked).get ⟨1⟩).map (·.state) =
        some .retryWaiting := by
  obtain ⟨hreplay, hdiverged, _⟩ := memory_is_replay (.fresh mailBoot _ _)
    (mailRequeued_run (fun _ => True) trivial)
  exact ⟨hreplay, hdiverged, by decide +kernel, by decide +kernel⟩

end Coordinator

end DurableQueue
