import DurableQueue.Defs.Coordinator.OpsLaws

/-! The operations as changes to the timers, the leases' tokens and the answers.  The atomic
steps are about the jobs and the log; here these stay out of sight. -/

namespace DurableQueue

namespace Coordinator

/-- What an operation may do with leases and permits: grant a lease to a worker, settle one on
its worker's word, cancel some, leave the loop and with it those that are left, or take the
permit of a submission. -/
inductive Dealing
  | grant | settle | cancel | leave | take
  deriving DecidableEq

variable {X : Crates} {config : RuntimeConfig} {clock : Nat → Instant} {D : Dealing → Prop}
  {env : Env} {α β : Type} {s₀ s s' : Coordinator}

def closedFlags (s : Coordinator) (queue : String) : Option Bool :=
  (s.semaphores.get queue).map (·.closed)

theorem closed_release (permit : OwnedSemaphorePermit) (semaphores : HashMap String Semaphore)
    (queue : String) : ((release permit semaphores).get queue).map (·.closed) =
      (semaphores.get queue).map (·.closed) := by
  rw [release, HashMap.get_modify]
  split
  · rename_i hqueue
    rw [hqueue, Option.map_map]
    rfl
  · rfl

theorem closedFlags_removePermit (id : JobId) (s : Coordinator) :
    (s.removePermit id).closedFlags = s.closedFlags := by
  funext q
  unfold closedFlags removePermit
  cases s.permits.get id with
  | none => rfl
  | some permit => exact closed_release permit _ q

theorem closedFlags_returnPermit (permit : OwnedSemaphorePermit) (s : Coordinator) :
    (s.returnPermit permit).closedFlags = s.closedFlags :=
  funext fun q => closed_release permit _ q

structure Silent (s s' : Coordinator) : Prop where
  tick : s.tick ≤ s'.tick
  leases : s'.leases = s.leases
  nextLeaseEpoch : s'.nextLeaseEpoch = s.nextLeaseEpoch
  retryQueue : s'.retryQueue = s.retryQueue
  parkedWorkers : s'.parkedWorkers = s.parkedWorkers
  shuttingDown : s'.shuttingDown = s.shuttingDown
  shutdownDeadline : s'.shutdownDeadline = s.shutdownDeadline
  shutdownReply : s'.shutdownReply = s.shutdownReply
  cancelled : s'.cancelled = s.cancelled
  sent : s'.sent = s.sent
  exited : s'.exited = s.exited
  closedFlags : s'.closedFlags = s.closedFlags

theorem Silent.refl (s : Coordinator) : Silent s s :=
  ⟨le_rfl, rfl, rfl, rfl, rfl, rfl, rfl, rfl, rfl, rfl, rfl, rfl⟩

/-- What the coordinator does between the receipt of a command and its answer, and in the
operations without one; it deals with leases and permits as `D` allows.  A timer is set to a
reading of the clock plus a delay. -/
inductive Act (config : RuntimeConfig) (clock : Nat → Instant) (D : Dealing → Prop)
    (s : Coordinator) : Coordinator → Prop
  | silent {s' : Coordinator} (h : Silent s s')
      (hpermits : ¬D .take → s'.inFlight = s.inFlight) : Act config clock D s s'
  | grant (hD : D .grant) (id : JobId) (queue : String) :
      Act config clock D s (exposeLease id queue
        ⟨⟨s.nextLeaseEpoch⟩, (clock s.tick).add config.visibilityTimeout⟩
        { s with tick := s.tick + 1 })
  | removeLease (hD : D .settle) (id : JobId) : Act config clock D s (s.removeLease id)
  | cancelLease (hD : D .cancel) (id : JobId) : Act config clock D s (s.cancelLease id)
  | schedule (id : JobId) (queue : String) (wall : UnixMillis) (attempt : UInt32) (rng : Rng) :
      Act config clock D s (exposeRetry queue
        ⟨(clock s.tick).add (config.retry.delayWithRng attempt rng), wall, id⟩
        { s with tick := s.tick + 1 })
  | popRetry (entry : RetryEntry) :
      Act config clock D s { s with retryQueue := s.retryQueue.erase entry }
  | hand (hD : D .grant) {worker : Sender} {rest : List Sender}
      (h : s.parkedWorkers = worker :: rest) (job : LeasedJob) :
      Act config clock D s (send worker (.work (some job)) { s with parkedWorkers := rest })
  /-- the first shutdown command closes the semaphores and sends the parked workers home -/
  | drain (h : s.shuttingDown = false) :
      Act config clock D s { s.closeSemaphores with
        shuttingDown := true
        shutdownToken := true
        parkedWorkers := []
        sent := s.sent ++ s.parkedWorkers.map (fun worker => (worker, .work none)) }
  | completeShutdown : Act config clock D s s.completeShutdown
  | exit (hD : D .leave) : Act config clock D s s.exit

abbrev Acts (config : RuntimeConfig) (clock : Nat → Instant) (D : Dealing → Prop) :
    Coordinator → Coordinator → Prop :=
  Relation.ReflTransGen (Act config clock D)

abbrev ActsOnly (config : RuntimeConfig) (clock : Nat → Instant) (D : Dealing → Prop)
    (m : CoordM α) (s₀ s : Coordinator) : Prop :=
  Does (Act config clock D) (fun _ _ _ => True) m (fun _ _ => True) s₀ s

namespace Acts

theorem silent (h : Silent s s') (hpermits : s'.inFlight = s.inFlight) :
    Acts config clock D s s' := .single (.silent h fun _ => hpermits)

theorem forceShutdown (hD : D .cancel) : Acts config clock D s s.forceShutdown := by
  have hcancel : ∀ (ids : List JobId) (s : Coordinator),
      Acts config clock D s (ids.foldl (fun s id => s.cancelLease id) s) := by
    intro ids
    induction ids with
    | nil => exact fun s => .refl
    | cons id ids ih => exact fun s => .head (.cancelLease hD id) (ih _)
  exact (hcancel _ s).tail .completeShutdown

end Acts

/-! ## Drawing, persisting, applying -/

namespace ActsOnly

theorem of_pure (a : α) : ActsOnly config clock D (pure a : CoordM α) s s :=
  Does.of_pure .refl trivial

theorem of_silent {f : Coordinator → Coordinator} (h : Silent s (f s))
    (hpermits : (f s).inFlight = s.inFlight) :
    ActsOnly config clock D (modify f : CoordM Unit) s s :=
  Does.of_modify (Acts.silent h hpermits) trivial

theorem of_act {f : Coordinator → Coordinator} (h : Act config clock D s (f s)) :
    ActsOnly config clock D (modify f : CoordM Unit) s s :=
  Does.of_modify (.single h) trivial

theorem bind {m : CoordM α} {f : α → CoordM β} (hm : ActsOnly config clock D m s s)
    (hf : ∀ a s₁, ActsOnly config clock D (f a) s₁ s₁) :
    ActsOnly config clock D (m >>= f) s s :=
  Does.bind hm fun a s₁ _ _ => hf a s₁

theorem get_bind {f : Coordinator → CoordM β} (h : ActsOnly config clock D (f s) s s) :
    ActsOnly config clock D (get >>= f) s s := h

theorem act_bind {f : Coordinator → Coordinator} {k : PUnit → CoordM β}
    (h : Act config clock D s (f s)) (hk : ActsOnly config clock D (k ⟨⟩) (f s) (f s)) :
    ActsOnly config clock D (modify f >>= k) s s := Does.after (.single h) hk

theorem nowPlus_bind {d : Duration} {f : Instant → CoordM β}
    (h : ActsOnly config clock D (f ((env.instant s.tick).add d)) s { s with tick := s.tick + 1 }) :
    ActsOnly config clock D (nowPlus env d >>= f) s s :=
  Coordinator.nowPlus_bind h ⟨s, .refl, trivial⟩

theorem skip_bind {source : Nat → α} {f : α → CoordM β}
    (h : ∀ a, ActsOnly config clock D (f a) { s with tick := s.tick + 1 }
      { s with tick := s.tick + 1 }) :
    ActsOnly config clock D (draw source >>= f) s s := by
  have hdraw : Acts config clock D s { s with tick := s.tick + 1 } :=
    Acts.silent { Silent.refl s with tick := Nat.le_succ _ } rfl
  exact Does.after hdraw (h (source s.tick))

end ActsOnly

theorem persist_silent (r : WalRecord) :
    Does (Act config clock D) (fun _ _ _ => True) (persist X env r) (fun _ s' => Silent s s')
      s s := by
  have hsilent : ∀ (st : Storage) (e : Event), Silent s
      { s with storage := st, journal := s.journal ++ [e], tick := s.tick + 1 } :=
    fun _ _ => { Silent.refl s with tick := Nat.le_succ _ }
  refine wp_persist (P := fun _ => True) (fun _ => trivial) ?_ ?_ ?_
  · exact fun _ _ _ _ _ => ⟨Acts.silent (hsilent _ _) rfl, hsilent _ _⟩
  · exact fun _ _ _ _ _ => ⟨Acts.silent (hsilent _ _) rfl, hsilent _ _⟩
  · exact fun _ _ _ => ⟨s, .refl, trivial⟩

theorem applyRecord_silent (r : WalRecord) :
    Does (Act config clock D) (fun _ _ _ => True) (applyRecord r) (fun _ s' => Silent s s')
      s s := by
  have hstore : ∀ store, Silent s { s with store := store } := fun _ => { Silent.refl s with }
  have hjournal : ∀ e, Silent s { s with journal := s.journal ++ [e] } :=
    fun _ => { Silent.refl s with }
  exact wp_applyRecord (fun _ => ⟨Acts.silent (hstore _) rfl, hstore _⟩)
    fun _ => ⟨Acts.silent (hjournal _) rfl, hjournal _⟩

theorem persist_apply_acts {r : WalRecord} {f : CoordM α} {g : WalError → CoordM α}
    {g' : Error → CoordM α} (hf : ∀ s₁, ActsOnly config clock D f s₁ s₁)
    (hg : ∀ e s₁, ActsOnly config clock D (g e) s₁ s₁)
    (hg' : ∀ e s₁, ActsOnly config clock D (g' e) s₁ s₁) :
    ActsOnly config clock D (do
      match ← persist X env r with
      | .error e => g e
      | .ok _ =>
        match ← applyRecord r with
        | .error e => g' e
        | .ok () => f) s s := by
  refine Does.bind (persist_silent r) fun result s₁ _ _ => ?_
  cases result with
  | error e => exact hg e s₁
  | ok seq =>
    refine Does.bind (applyRecord_silent r) fun result s₂ _ _ => ?_
    cases result with
    | error e => exact hg' e s₂
    | ok _ => exact hf s₂

/-! ## Outcomes and timeouts -/

theorem finishJob_acts (id : JobId) (queue : QueueName) (record : UnixMillis → WalRecord)
    (count : QueueStats → QueueStats) (countGlobal : GlobalStats → GlobalStats) :
    ActsOnly config clock D (finishJob X env id queue record count countGlobal) s s := by
  refine .skip_bind fun now => persist_apply_acts (fun s₁ => ?_) (fun _ _ => .of_pure _)
    fun _ _ => .of_pure _
  exact .of_silent { Silent.refl s₁ with closedFlags := closedFlags_removePermit id _ } rfl

theorem scheduleRetry_acts (id : JobId) (l : LeaseId) (queue : QueueName) (attempt : UInt32) :
    ActsOnly config env.instant D (scheduleRetry X config env id l queue attempt) s s := by
  refine .skip_bind fun rng => .skip_bind fun now => persist_apply_acts (fun s₁ => ?_)
    (fun _ _ => .of_pure _) fun _ _ => .of_pure _
  exact .nowPlus_bind (Does.of_modify (.single (.schedule id _ _ attempt rng)) trivial)

theorem retryOrDie_acts (id : JobId) (l : LeaseId) (job : JobRecord) :
    ActsOnly config env.instant D (retryOrDie X config env id l job) s s := by
  unfold retryOrDie
  split
  · exact finishJob_acts ..
  · exact scheduleRetry_acts ..

theorem doWorkerOutcome_acts (hD : D .settle) (id : JobId) (l : LeaseId) (outcome : WorkerOutcome) :
    ActsOnly config env.instant D (doWorkerOutcome X config env id l outcome) s s := by
  refine .get_bind ?_
  cases s.leases.get id with
  | none => exact .of_silent { Silent.refl s with } rfl
  | some lease =>
    dsimp only
    split
    · exact .of_silent { Silent.refl s with } rfl
    · refine .act_bind (.removeLease hD id) (.get_bind ?_)
      cases (s.removeLease id).store.get id with
      | none => exact .of_pure _
      | some job =>
        cases outcome with
        | success | fatal => exact finishJob_acts ..
        | retryable | panic => exact retryOrDie_acts ..

theorem expireLease_acts (hD : D .cancel) (id : JobId) (l : LeaseId) :
    ActsOnly config env.instant D (expireLease X config env id l) s s := by
  refine .get_bind ?_
  split
  · exact .of_pure _
  · refine .act_bind (.cancelLease hD id) (.get_bind ?_)
    cases (s.cancelLease id).store.get id with
    | none => exact .of_pure _
    | some job => exact retryOrDie_acts ..

theorem expireLeases_acts (hD : D .cancel) (timedOut : List (JobId × LeaseId)) :
    ActsOnly config env.instant D (expireLeases X config env timedOut) s s := by
  induction timedOut generalizing s with
  | nil => exact .of_pure _
  | cons head rest ih => exact .bind (expireLease_acts hD ..) fun _ s₁ => ih

theorem checkLeaseTimeouts_acts (hD : D .cancel) :
    ActsOnly config env.instant D (checkLeaseTimeouts X config env) s s :=
  .skip_bind fun _ => .skip_bind fun _ => .get_bind (expireLeases_acts hD _)

/-! ## Due retries -/

theorem popDueRetry_acts (entry : RetryEntry) : Acts config clock D s (s.popDueRetry entry) := by
  have hpop : Act config clock D s { s with retryQueue := s.retryQueue.erase entry } :=
    .popRetry entry
  simp only [popDueRetry]
  split
  · exact .single hpop
  · split
    · exact .single hpop
    · split
      · exact .single hpop
      · refine (Relation.ReflTransGen.single hpop).tail (.silent ?_ fun _ => rfl)
        exact { Silent.refl { s with retryQueue := s.retryQueue.erase entry } with }

theorem dueRetriesLoop_acts (now : Instant) (rounds : Nat) :
    ActsOnly config clock D (dueRetriesLoop env now rounds) s s := by
  induction rounds generalizing s with
  | zero => exact .of_pure _
  | succ rounds ih =>
    refine .skip_bind fun order => .get_bind ?_
    split
    · exact .of_pure _
    · split
      · exact .of_pure _
      · exact Does.modify_bind (Does.after (popDueRetry_acts _) ih)

theorem processDueRetries_acts : ActsOnly config clock D (processDueRetries env) s s :=
  .skip_bind fun _ => .get_bind (dueRetriesLoop_acts _ _)

/-! ## Leasing -/

theorem leaseFront_acts (hD : D .grant) (queue : String) :
    ActsOnly config env.instant D (leaseFront X config env queue) s s := by
  refine .get_bind ?_
  split
  · exact .of_pure _
  split
  · exact .of_pure _
  rename_i jobId _
  split
  · exact .of_pure _
  split
  · exact .of_pure _
  refine .skip_bind fun leasedAt => Does.bind (persist_silent _) fun result s₁ _ h₁ => ?_
  cases result with
  | error e => exact ActsOnly.of_pure _
  | ok seq =>
    refine ActsOnly.act_bind (.silent { Silent.refl s₁ with } fun _ => rfl) ?_
    refine Does.bind (applyRecord_silent _) fun result s₂ _ h₂ => ?_
    cases result with
    | error e => exact ActsOnly.of_pure _
    | ok _ =>
      -- the epoch in the record is still the coordinator's
      have hepoch : s₂.nextLeaseEpoch = s.nextLeaseEpoch :=
        h₂.nextLeaseEpoch.trans h₁.nextLeaseEpoch
      rw [← hepoch]
      refine ActsOnly.nowPlus_bind (Does.modify_bind
        (Does.after (.single (.grant hD jobId queue)) (.get_bind ?_)))
      split <;> exact ActsOnly.of_pure _

theorem tryLeaseLoop_acts (hD : D .grant) (n rounds : Nat) :
    ActsOnly config env.instant D (tryLeaseLoop X config env n rounds) s s := by
  induction rounds generalizing s with
  | zero => exact .of_pure _
  | succ rounds ih =>
    have hcursor : Acts config env.instant D s
        { s with nextQueueIdx := (s.nextQueueIdx + 1) % n } :=
      Acts.silent { Silent.refl s with } rfl
    refine .get_bind (Does.set_bind (Does.after hcursor ?_))
    refine ActsOnly.bind (leaseFront_acts hD _) fun found s₁ => ?_
    cases found with
    | some result => exact ActsOnly.of_pure _
    | none => exact ih

theorem tryLeaseJob_acts (hD : D .grant) :
    ActsOnly config env.instant D (tryLeaseJob X config env) s s :=
  .get_bind (tryLeaseLoop_acts hD _ _)

theorem dispatchLoop_acts (hD : D .grant) (rounds : Nat) :
    ActsOnly config env.instant D (dispatchLoop X config env rounds) s s := by
  induction rounds generalizing s with
  | zero => exact .of_pure _
  | succ rounds ih =>
    refine .get_bind ?_
    split
    · exact .of_pure _
    refine .bind (tryLeaseJob_acts hD) fun found s₁ => ?_
    cases found with
    | none => exact .of_pure _
    | some job =>
      refine .get_bind ?_
      cases hworkers : s₁.parkedWorkers with
      | nil => exact ih
      | cons worker rest => exact .act_bind (.hand hD hworkers job) ih

theorem tryDispatchParkedWorkers_acts (hD : D .grant) :
    ActsOnly config env.instant D (tryDispatchParkedWorkers X config env) s s := by
  refine .get_bind ?_
  split
  · exact .of_pure _
  · exact .get_bind (dispatchLoop_acts hD _)

/-! ## Commands and the loop's end -/

theorem doSubmit_acts (hD : D .grant) (htake : D .take) (queue : QueueName) (spec : JobSpec)
    (permit : OwnedSemaphorePermit) :
    ActsOnly config env.instant D (doSubmit X config env queue spec permit) s s := by
  refine .get_bind ?_
  split
  · exact .of_pure _
  split
  · exact .of_pure _
  refine .skip_bind fun id => .skip_bind fun createdAt => persist_apply_acts (fun s₁ => ?_)
    (fun _ _ => .of_pure _) fun _ _ => .of_pure _
  refine .get_bind (.act_bind (.silent { Silent.refl s₁ with
    closedFlags := closedFlags_removePermit id s₁ } fun h => absurd htake h) ?_)
  exact .bind (tryDispatchParkedWorkers_acts hD) fun _ _ => .of_pure _

theorem submitResult_acts (hD : D .grant) (htake : D .take) (queue : QueueName) (spec : JobSpec)
    (permit : OwnedSemaphorePermit) :
    ActsOnly config env.instant D (submitResult X config env queue spec permit) s s := by
  refine .get_bind ?_
  split
  · exact .of_pure _
  · exact doSubmit_acts hD htake ..

theorem exposeCancel_acts (hD : D .cancel) (id : JobId) (queue : String) (st : JobState) :
    Acts config clock D s (exposeCancel id queue st s) := by
  have hrest : ∀ s₁ : Coordinator, Silent s₁
      (let s₂ := (s₁.updateQueue queue (cancelQueue id st)).removePermit id
       { s₂ with
         globalStats := { s₂.globalStats with cancelled := s₂.globalStats.cancelled + 1 } }) :=
    fun s₁ => { Silent.refl s₁ with closedFlags := closedFlags_removePermit id _ }
  unfold exposeCancel
  split
  · exact (Relation.ReflTransGen.single (.cancelLease hD id)).tail
      (.silent (hrest _) fun _ => rfl)
  · exact Acts.silent (hrest s) rfl

theorem doCancel_acts (hD : D .cancel) (id : JobId) :
    ActsOnly config clock D (doCancel X env id) s s := by
  refine .get_bind ?_
  split
  · exact .of_pure _
  split
  · exact .of_pure _
  refine .skip_bind fun cancelledAt => persist_apply_acts (fun s₁ => ?_)
    (fun _ _ => .of_pure _) fun _ _ => .of_pure _
  exact .get_bind (Does.modify_bind (Does.after (exposeCancel_acts hD ..) (ActsOnly.of_pure _)))

theorem checkExit_acts (hD : D .cancel) (hleave : D .leave) :
    ActsOnly config clock D (checkExit env) s s := by
  refine .get_bind ?_
  split
  · exact ⟨(Relation.ReflTransGen.single .completeShutdown).tail (.exit hleave), trivial⟩
  split
  · exact .of_pure _
  refine .skip_bind fun now => ?_
  split
  · exact Does.of_modify ((Acts.forceShutdown hD).tail (.exit hleave)) trivial
  · exact .of_pure _

end Coordinator

end DurableQueue
