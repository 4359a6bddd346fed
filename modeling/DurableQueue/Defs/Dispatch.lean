import DurableQueue.Lib.Rotation
import DurableQueue.Defs.PersistFailure
import DurableQueue.Defs.Shutdown
import DurableQueue.Defs.Admission

/-! What a search for a job finds, and which workers are idle when the loop comes to rest. -/

namespace DurableQueue

namespace Coordinator

variable {X : Crates} {P : Fault → Prop} {config : RuntimeConfig} {env : Env}
  {s₀ s s' s'' : Coordinator}

def LeasesPersist (s s' : Coordinator) : Prop :=
  ∀ r ∈ newlyFailed s s', r.leasedEpoch = none

theorem LeasesPersist.split (h : LeasesPersist s s'') {l l' : List WalRecord}
    (hl : s'.failed = s.failed ++ l) (hl' : s''.failed = s'.failed ++ l') :
    LeasesPersist s s' ∧ LeasesPersist s' s'' := by
  have hall : newlyFailed s s'' = l ++ l' :=
    newlyFailed_append (by rw [hl', hl, List.append_assoc])
  rw [LeasesPersist, hall] at h
  constructor
  · intro r hr
    rw [newlyFailed_append hl] at hr
    exact h r (List.mem_append_left _ hr)
  · intro r hr
    rw [newlyFailed_append hl'] at hr
    exact h r (List.mem_append_right _ hr)

theorem LeasesPersist.of_isEmpty (h : (newlyFailed s s').isEmpty) : LeasesPersist s s' := by
  rw [LeasesPersist, List.isEmpty_iff.mp h]
  exact fun r hr => absurd hr List.not_mem_nil

/-! ## Queues with work -/

def HasReady (s : Coordinator) (q : String) : Prop :=
  ∃ qs, s.queues.get q = some qs ∧
    ∃ id ∈ qs.ready, ∃ job, s.store.get id = some job ∧ job.state = .queued

def ReadyAt (s : Coordinator) (i : Nat) : Prop := s.HasReady (s.queueOrder.getD i "")

theorem Placement.hasReady_iff (hs : Placement config s) {q : String} :
    s.HasReady q ↔ ∃ id, s.store.place id = some (.queued, q) := by
  constructor
  · rintro ⟨qs, hqs, id, hid, _⟩
    exact ⟨id, (hs.mem_ready q qs id hqs).mp hid⟩
  · rintro ⟨id, hplace⟩
    obtain ⟨qs, hqs⟩ := Option.isSome_iff_exists.mp (hs.configured id _ q hplace rfl)
    obtain ⟨job, hjob, hstate, _⟩ := MemoryStore.place_eq_some.mp hplace
    exact ⟨qs, hqs, id, (hs.mem_ready q qs id hqs).mpr hplace, job, hjob, hstate⟩

theorem Placement.front (hs : Placement config s) {q : String} {qs : QueueState} {id : JobId}
    (hqs : s.queues.get q = some qs) (hfront : qs.ready.head? = some id) :
    ∃ job, s.store.get id = some job ∧ job.state = .queued ∧ job.queue.asStr = q :=
  MemoryStore.place_eq_some.mp ((hs.mem_ready q qs id hqs).mp (List.mem_of_mem_head? hfront))

theorem Placement.not_hasReady (hs : Placement config s) {q : String}
    (hidle : ∀ qs, s.queues.get q = some qs → ∀ id, qs.ready.head? = some id →
      ∀ job, s.store.get id = some job → job.state ≠ .queued) : ¬s.HasReady q := by
  rintro ⟨qs, hqs, id, hid, _⟩
  obtain ⟨front, rest, hready⟩ := List.exists_cons_of_ne_nil (List.ne_nil_of_mem hid)
  have hfront : qs.ready.head? = some front := by rw [hready, List.head?_cons]
  obtain ⟨job, hjob, hstate, _⟩ := hs.front hqs hfront
  exact hidle qs hqs front hfront job hjob hstate

/-! ## One search -/

theorem StepsOf.failed_append {A : Coordinator → WalRecord → Prop} (h : StepsOf X P A s s') :
    ∃ l, s'.failed = s.failed ++ l := by
  obtain ⟨_, failed, _, hfailed, _⟩ :=
    StepsOf.onlyLogs (B := fun _ => True) h (fun _ _ _ => trivial)
  exact ⟨failed, hfailed⟩

theorem tryLeaseLoop_refused {n rounds : Nat} {r : WalRecord} {e : WalError} {st : Storage}
    {t : Nat} (hn : s.queueOrder.length = n) (hr : r.leasedEpoch.isSome) :
    wp (tryLeaseLoop X config env n rounds) (fun _ s' => ¬LeasesPersist s s')
      (fun _ s' => ¬LeasesPersist s s') (s.refuse r e st t) := by
  have hnot : ∀ s' l, s'.failed = (s.refuse r e st t).failed ++ l → ¬LeasesPersist s s' := by
    intro s' l hl hleases
    rw [failed_refuse, List.append_assoc] at hl
    have hnone := hleases r (by rw [newlyFailed_append hl]; exact List.mem_cons_self)
    rw [hnone] at hr
    cases hr
  have hlogs : Logs X (fun _ => True) (fun _ _ => True) (tryLeaseLoop X config env n rounds)
      (fun _ _ => True) (s.refuse r e st t) (s.refuse r e st t) :=
    tryLeaseLoop_logs (s := s.refuse r e st t) (fun _ => trivial) (fun _ _ _ _ _ => trivial) hn rounds
  refine wp_mono hlogs (fun _ s' h => ?_) fun _ s' ⟨s₁, hsteps, hdies⟩ => ?_
  · obtain ⟨l, hl⟩ := StepsOf.failed_append h.1
    exact hnot s' l hl
  · obtain ⟨_, l, _, hl, _⟩ := (StepsOf.onlyLogs (B := fun _ => True) hsteps
      fun _ _ _ => trivial).trans hdies.onlyLogs
    exact hnot s' l hl

inductive Search (s : Coordinator) (n rounds : Nat) (s' : Coordinator) : Option LeasedJob → Prop
  | found {job : LeasedJob} {k : Nat} (hk : k < rounds)
      (hpassed : ∀ j < k, ¬s.ReadyAt ((s.nextQueueIdx + j) % n))
      (hqueue : job.context.queue.asStr = s.queueOrder.getD ((s.nextQueueIdx + k) % n) "")
      (hcursor : s'.nextQueueIdx = (s.nextQueueIdx + k + 1) % n) : Search s n rounds s' (some job)
  | nothing (hpassed : ∀ j < rounds, ¬s.ReadyAt ((s.nextQueueIdx + j) % n))
      (hcursor : s'.nextQueueIdx = (s.nextQueueIdx + rounds) % n)
      (hstore : s'.store = s.store) (hqueues : s'.queues = s.queues) : Search s n rounds s' none

theorem Search.skip {n rounds : Nat} {found : Option LeasedJob} (hidx : s.nextQueueIdx < n)
    (hidle : ¬s.ReadyAt s.nextQueueIdx)
    (h : Search { s with nextQueueIdx := (s.nextQueueIdx + 1) % n } n rounds s' found) :
    Search s n (rounds + 1) s' found := by
  have hnext : ∀ j, ((s.nextQueueIdx + 1) % n + j) % n = (s.nextQueueIdx + (j + 1)) % n := by
    intro j
    rw [Nat.mod_add_mod, Nat.add_assoc, Nat.add_comm 1 j]
  have hpassed : ∀ m, (∀ j < m, ¬s.ReadyAt (((s.nextQueueIdx + 1) % n + j) % n)) →
      ∀ j < m + 1, ¬s.ReadyAt ((s.nextQueueIdx + j) % n) := by
    intro m hm j hj
    cases j with
    | zero => rwa [Nat.add_zero, Nat.mod_eq_of_lt hidx]
    | succ j =>
      rw [← hnext]
      exact hm j (Nat.lt_of_succ_lt_succ hj)
  cases h with
  | @found job k hk hbefore hqueue hcursor =>
    refine .found (Nat.succ_lt_succ hk) (hpassed k hbefore) ?_ ?_
    · rwa [← hnext k]
    · exact hcursor.trans (hnext (k + 1))
  | nothing hbefore hcursor hstore hqueues =>
    refine .nothing (hpassed rounds hbefore) ?_ hstore hqueues
    rw [hcursor, hnext]

theorem tryLeaseLoop_search {n : Nat} (hs : Placement config s) (hn : s.queueOrder.length = n)
    (hidx : s.nextQueueIdx < n) (rounds : Nat) :
    wp (tryLeaseLoop X config env n rounds)
      (fun found s' => LeasesPersist s s' → Search s n rounds s' found) (fun _ _ => True) s := by
  induction rounds generalizing s with
  | zero =>
    intro _
    exact .nothing (by simp) (Nat.mod_eq_of_lt hidx).symm rfl rfl
  | succ rounds ih =>
    have hidx' : (s.nextQueueIdx + 1) % n < n := Nat.mod_lt _ (Nat.zero_lt_of_lt hidx)
    have hs₁ : Placement config { s with nextQueueIdx := (s.nextQueueIdx + 1) % n } :=
      { hs with }
    refine (wp_bind _ _).mpr (wp_get.mpr ((wp_bind _ _).mpr ((wp_set _).mpr ?_)))
    refine (wp_bind _ _).mpr (wp_mono (leaseFront_probe _) ?_ (fun _ _ h => h))
    intro found s₁ hprobe
    cases hprobe with
    | skip hidle =>
      refine wp_mono (ih hs₁ hn hidx') ?_ (fun _ _ h => h)
      intro found s' hsearch hleases
      exact (hsearch hleases).skip hidx (hs.not_hasReady hidle)
    | refuse leasedAt e st t hqueue hfront hjob hstate =>
      refine wp_mono (tryLeaseLoop_refused hn rfl) ?_ fun _ _ _ => trivial
      exact fun found s' hnot hleases => absurd hleases hnot
    | lease leasedAt deadline st t hqueue hfront hjob hstate =>
      intro _
      obtain ⟨job, hjob', _, hq⟩ := hs₁.front hqueue hfront
      rw [hjob] at hjob'
      cases hjob'
      have hfirst : (s.nextQueueIdx + 0) % n = s.nextQueueIdx := Nat.mod_eq_of_lt hidx
      refine .found (Nat.succ_pos rounds) (by simp) ?_ rfl
      rw [hfirst]
      exact hq

/-- `try_lease_job` takes a job from the first queue that has one, counted from the cursor. -/
theorem tryLeaseJob_search (hs : Placement config s)
    (hidx : s.nextQueueIdx < s.queueOrder.length) :
    wp (tryLeaseJob X config env)
      (fun found s' => LeasesPersist s s' →
        Search s s.queueOrder.length s.queueOrder.length s' found) (fun _ _ => True) s :=
  (wp_bind _ _).mpr (wp_get.mpr (tryLeaseLoop_search hs rfl hidx _))

theorem Search.idle (h : Search s s.queueOrder.length s.queueOrder.length s' none)
    (hidx : s.nextQueueIdx < s.queueOrder.length) :
    (∀ q ∈ s.queueOrder, ¬s.HasReady q) ∧ s'.HasReady = s.HasReady := by
  cases h with
  | nothing hpassed hcursor hstore hqueues =>
    refine ⟨fun q hq => ?_, funext fun q => by rw [HasReady, hqueues, hstore, HasReady]⟩
    obtain ⟨i, hi, rfl⟩ := List.getElem_of_mem hq
    have hidle : ¬s.ReadyAt i := Rotation.idle_of_full_round hidx hpassed hi
    rwa [ReadyAt, List.getD_eq_getElem?_getD, List.getElem?_eq_getElem hi,
      Option.getD_some] at hidle

/-! ## The deadline of a lease -/

theorem leaseFront_deadline (queue : String) :
    wp (leaseFront X config env queue)
      (fun found _ => found.isSome → (env.instant (s.tick + 2)).Fits config.visibilityTimeout)
      (fun c _ => c = .panic → ¬(env.instant (s.tick + 2)).Fits config.visibilityTimeout) s := by
  have hnone : ∀ {P : Prop}, (none : Option (Option LeasedJob)).isSome → P := by
    intro P h
    cases h
  refine (wp_bind _ _).mpr (wp_get.mpr ?_)
  split
  · exact hnone
  split
  · exact hnone
  split
  · exact hnone
  split
  · exact hnone
  refine (wp_bind _ _).mpr (wp_draw.mpr ((wp_bind _ _).mpr
    (wp_persist (P := fun _ => True) (fun _ => trivial) ?_ ?_ ?_)))
  · intro fault seq st _ _
    refine (wp_bind _ _).mpr ((wp_modify _).mpr ((wp_bind _ _).mpr (wp_applyRecord ?_ ?_)))
    · intro store
      refine (wp_bind _ _).mpr (wp_nowPlus (fun hfits => ?_) fun hnot _ => hnot)
      refine (wp_bind _ _).mpr ((wp_modify _).mpr ((wp_bind _ _).mpr (wp_get.mpr ?_)))
      split <;> exact fun _ => hfits
    · exact fun _ => hnone
  · exact fun _ _ _ _ _ => hnone
  · intro _ _ _ hpanic
    cases hpanic

theorem tryLeaseLoop_deadline {n : Nat} (hn : s.queueOrder.length = n) (rounds : Nat) :
    wp (tryLeaseLoop X config env n rounds)
      (fun found s' => LeasesPersist s s' → found.isSome →
        (env.instant (s.tick + 2)).Fits config.visibilityTimeout)
      (fun c s' => LeasesPersist s s' → c = .panic →
        ¬(env.instant (s.tick + 2)).Fits config.visibilityTimeout) s := by
  induction rounds generalizing s with
  | zero =>
    intro _ hsome
    cases hsome
  | succ rounds ih =>
    refine (wp_bind _ _).mpr (wp_get.mpr ((wp_bind _ _).mpr ((wp_set _).mpr ?_)))
    refine (wp_bind _ _).mpr (wp_intro (fun found s₁ hround => ?_) fun c s' hround _ => ?_)
    · have hfits := wp_ok (leaseFront_deadline _) hround
      cases found with
      | some result => exact fun _ _ => hfits rfl
      | none =>
        have hprobe := wp_ok (leaseFront_probe _) hround
        cases hprobe with
        | skip => exact ih hn
        | refuse leasedAt e st t =>
          exact wp_mono (tryLeaseLoop_refused hn rfl) (fun _ _ hnot h => absurd h hnot)
            fun _ _ hnot h => absurd h hnot
    · have hpanic := wp_error (leaseFront_deadline _) hround
      exact hpanic

/-! ## Idle workers -/

def Busy (s : Coordinator) : Prop := s.parkedWorkers = [] ∨ ∀ q ∈ s.queueOrder, ¬s.HasReady q

theorem tryLeaseJob_steps {found : Option LeasedJob}
    (h : tryLeaseJob X config env s = .ok found s') :
    StepsOf X (fun _ => True) (fun _ _ => True) s s' :=
  (wp_ok (tryLeaseJob_logs (fun _ => trivial) (fun _ _ _ _ _ => trivial)) h).1

theorem tryLeaseJob_none (hs : Placement config s) (hcursor : s.CursorInside)
    (h : tryLeaseJob X config env s = .ok none s') (hleases : LeasesPersist s s') :
    ∀ q ∈ s'.queueOrder, ¬s'.HasReady q := by
  rw [Steps.queueOrder (StepsOf.steps (tryLeaseJob_steps h))]
  rcases hcursor with hnil | hidx
  · simp [hnil]
  · obtain ⟨hidle, hsame⟩ := (wp_ok (tryLeaseJob_search hs hidx) h hleases).idle hidx
    rwa [hsame]

theorem dispatchLoop_busy (hs : Placement config s) (hcursor : s.CursorInside) {rounds : Nat}
    (hrounds : s.parkedWorkers.length ≤ rounds) :
    wp (dispatchLoop X config env rounds) (fun _ s' => LeasesPersist s s' → Busy s')
      (fun _ _ => True) s := by
  induction rounds generalizing s with
  | zero =>
    intro _
    exact Or.inl (List.length_eq_zero_iff.mp (Nat.le_zero.mp hrounds))
  | succ rounds ih =>
    refine (wp_bind _ _).mpr (wp_get.mpr ?_)
    split
    · rename_i hempty
      intro _
      exact Or.inl (List.isEmpty_iff.mp hempty)
    refine (wp_bind _ _).mpr (wp_intro ?_ fun _ _ _ => trivial)
    intro found s₁ hfound
    have hsteps := tryLeaseJob_steps hfound
    have hs₁ : Placement config s₁ := Steps.placement (StepsOf.steps hsteps) hs
    have hcursor₁ : s₁.CursorInside := Steps.cursorInside (StepsOf.steps hsteps) hcursor
    have hparked : s₁.parkedWorkers = s.parkedWorkers :=
      congrArg Control.parked (tryLeaseJob_keeps.ok hfound)
    obtain ⟨l, hl⟩ := StepsOf.failed_append hsteps
    -- what the remaining rounds come to, from a state that differs from `s₁` in its workers
    have hrest : ∀ s₂ : Coordinator, Placement config s₂ → s₂.CursorInside →
        s₂.failed = s₁.failed → s₂.parkedWorkers.length ≤ rounds →
        wp (dispatchLoop X config env rounds) (fun _ s' => LeasesPersist s s' → Busy s')
          (fun _ _ => True) s₂ := by
      intro s₂ hs₂ hcursor₂ hfailed hlength
      refine wp_intro (fun _ s' hrun hleases => ?_) fun _ _ _ => trivial
      obtain ⟨l', hl', _⟩ := wp_ok (dispatchLoop_noSubmitFails rounds) hrun
      exact wp_ok (ih hs₂ hcursor₂ hlength) hrun (hleases.split (hfailed.trans hl) hl').2
    cases found with
    | none => exact fun hleases => Or.inr (tryLeaseJob_none hs hcursor hfound hleases)
    | some job =>
      refine (wp_bind _ _).mpr (wp_get.mpr ?_)
      cases hworkers : s₁.parkedWorkers with
      | nil => exact hrest s₁ hs₁ hcursor₁ rfl (by simp [hworkers])
      | cons worker rest =>
        refine (wp_bind _ _).mpr ((wp_modify _).mpr (hrest _ { hs₁ with } hcursor₁ rfl ?_))
        rw [← hparked, hworkers] at hrounds
        exact Nat.le_of_succ_le_succ hrounds

theorem tryDispatchParkedWorkers_busy (hs : Placement config s) (hcursor : s.CursorInside)
    (hup : s.shuttingDown = false) :
    wp (tryDispatchParkedWorkers X config env) (fun _ s' => LeasesPersist s s' → Busy s')
      (fun _ _ => True) s := by
  refine (wp_bind _ _).mpr (wp_get.mpr ?_)
  rw [hup]
  exact (wp_bind _ _).mpr (wp_get.mpr (dispatchLoop_busy hs hcursor le_rfl))

/-! ## The select point -/

/-- What each round of `run` does before it waits in its `select!`. -/
def beforeSelect (X : Crates) (config : RuntimeConfig) (env : Env) : CoordM Unit := do
  processDueRetries env
  checkLeaseTimeouts X config env
  tryDispatchParkedWorkers X config env
  checkExit env

theorem checkExit_stays :
    wp (checkExit env) (fun _ s' => s'.exited = true ∨ ∃ t, s' = { s with tick := t })
      (fun _ _ => True) s := by
  refine (wp_bind _ _).mpr (wp_get.mpr ?_)
  split
  · exact Or.inl rfl
  · split
    · exact Or.inr ⟨s.tick, rfl⟩
    · refine (wp_bind _ _).mpr (wp_draw.mpr ?_)
      split
      · exact Or.inl rfl
      · exact Or.inr ⟨s.tick + 1, rfl⟩

theorem beforeSelect_busy (hs : Placement config s) (hcursor : s.CursorInside) :
    wp (beforeSelect X config env)
      (fun _ s' => s'.exited = false → s'.shuttingDown = false → LeasesPersist s s' →
        Placement config s' ∧ s'.queueOrder = s.queueOrder ∧ Busy s') (fun _ _ => True) s := by
  refine (wp_bind _ _).mpr (wp_intro (fun _ s₁ h₁ => ?_) fun _ _ _ => trivial)
  refine (wp_bind _ _).mpr (wp_intro (fun _ s₂ h₂ => ?_) fun _ _ _ => trivial)
  refine (wp_bind _ _).mpr (wp_intro (fun _ s₃ h₃ => ?_) fun _ _ _ => trivial)
  have hretries : StepsOf X (fun _ => True) (fun _ _ => True) s s₁ :=
    (wp_ok processDueRetries_logs h₁).1
  have hs₁ : Placement config s₁ := Steps.placement (StepsOf.steps hretries) hs
  have htimeouts : StepsOf X (fun _ => True) (fun _ _ => True) s₁ s₂ :=
    (wp_ok (checkLeaseTimeouts_logs (fun _ => trivial) hs₁ fun _ _ =>
      ⟨fun _ _ _ => trivial, fun _ _ _ _ _ => trivial⟩) h₂).1
  have hdispatch : StepsOf X (fun _ => True) (fun _ _ => True) s₂ s₃ :=
    (wp_ok (tryDispatchParkedWorkers_logs (fun _ => trivial) fun _ _ _ _ _ _ => trivial) h₃).1
  have hbefore := hretries.trans htimeouts
  have hs₂ : Placement config s₂ := Steps.placement (StepsOf.steps hbefore) hs
  have hcursor₂ : s₂.CursorInside := Steps.cursorInside (StepsOf.steps hbefore) hcursor
  obtain ⟨l, hl⟩ := StepsOf.failed_append hbefore
  obtain ⟨l', hl'⟩ := StepsOf.failed_append hdispatch
  have hphase := congrArg Control.shuttingDown (tryDispatchParkedWorkers_phase.ok h₃)
  have hs₃ : Placement config s₃ := Steps.placement (StepsOf.steps hdispatch) hs₂
  have horder : s₃.queueOrder = s.queueOrder :=
    Steps.queueOrder (StepsOf.steps (hbefore.trans hdispatch))
  have hbusy : s₃.shuttingDown = false → LeasesPersist s s₃ → Busy s₃ := by
    intro hup hleases
    exact wp_ok (tryDispatchParkedWorkers_busy hs₂ hcursor₂ (hphase.symm.trans hup)) h₃
      (hleases.split hl hl').2
  refine wp_mono checkExit_stays (fun _ s' hstays hloop hup hleases => ?_) fun _ _ h => h
  rcases hstays with hexited | ⟨t, rfl⟩
  · rw [hloop] at hexited
    cases hexited
  · exact ⟨{ hs₃ with }, horder, hbusy hup hleases⟩

/-- When the loop comes to its `select!` without shutting down, no worker is parked or no job
of a configured queue is queued; and a search that returns has found a job whenever such a job
is there, wherever the cursor stands.  If the process does not die in it, the search returns
exactly if the deadline of the lease is an instant; if it is not, the coordinator's task
panics.  All this holds as long as the leases are persisted. -/
theorem no_idle_worker (hstart : Started X config s₀) (hrun : Run X P config s₀ s) :
    (∀ env s', beforeSelect X config env s = .ok () s' → s'.exited = false →
      s'.shuttingDown = false → LeasesPersist s s' →
      s'.parkedWorkers = [] ∨ ∀ id job, s'.store.get id = some job →
        job.queue.asStr ∈ config.queueNames → job.state ≠ .queued) ∧
    ∀ env i, i < config.queueNames.length →
      (∃ id job, s.store.get id = some job ∧ job.queue.asStr ∈ config.queueNames ∧
        job.state = .queued) →
      (∀ found s', tryLeaseJob X config env { s with nextQueueIdx := i } = .ok found s' →
        LeasesPersist s s' → found.isSome) ∧
      ((∀ t, ∃ fault, env.fate t = .returns fault) →
        LeasesPersist s (finalState (tryLeaseJob X config env) { s with nextQueueIdx := i }) →
        ((∃ job s', tryLeaseJob X config env { s with nextQueueIdx := i } = .ok (some job) s') ↔
          (env.instant (s.tick + 2)).Fits config.visibilityTimeout) ∧
        ((∃ s', tryLeaseJob X config env { s with nextQueueIdx := i } = .error .panic s') ↔
          ¬(env.instant (s.tick + 2)).Fits config.visibilityTimeout)) := by
  have hs := hstart.run_placement hrun
  have hsteps := hstart.run_steps hrun
  obtain ⟨hnames, hinside⟩ := hstart.queueOrder
  have horder : s.queueOrder = config.queueNames := (Steps.queueOrder hsteps).trans hnames
  have hcursor := Steps.cursorInside hsteps hinside
  -- a queued job of a configured queue is in the deque of that queue
  have hready : ∀ {t : Coordinator} {id : JobId} {job : JobRecord}, Placement config t →
      t.store.get id = some job → job.state = .queued → t.HasReady job.queue.asStr := by
    intro t id job ht hjob hstate
    exact ht.hasReady_iff.mpr ⟨id, MemoryStore.place_eq_some.mpr ⟨job, hjob, hstate, rfl⟩⟩
  constructor
  · intro env s' hselect hloop hup hleases
    obtain ⟨hs', horder', hbusy⟩ :=
      wp_ok (beforeSelect_busy hs hcursor) hselect hloop hup hleases
    refine hbusy.imp id fun hidle id job hjob hqueue hstate => ?_
    exact hidle _ (by rwa [horder', horder]) (hready hs' hjob hstate)
  · rintro env i hi ⟨id, job, hjob, hqueue, hstate⟩
    set t : Coordinator := { s with nextQueueIdx := i }
    have ht : Placement config t := { hs with }
    have hidx : t.nextQueueIdx < t.queueOrder.length := by rwa [show t.queueOrder = _ from horder]
    have hfound : ∀ found s', tryLeaseJob X config env t = .ok found s' →
        LeasesPersist s s' → found.isSome := by
      intro found s' hcall hleases
      have hsearch := wp_ok (tryLeaseJob_search ht hidx) hcall hleases
      cases found with
      | some => rfl
      | none =>
        have hidle := (hsearch.idle hidx).1 job.queue.asStr
        rw [show t.queueOrder = _ from horder] at hidle
        exact absurd (hready ht hjob hstate) (hidle hqueue)
    refine ⟨hfound, fun hfate hleases => ?_⟩
    have hlease : Ends (· = .panic) (nowPlus env config.visibilityTimeout) :=
      nowPlus_ends fun _ _ => rfl
    have hends := tryLeaseJob_ends (X := X) (persist_ends hfate) hlease t
    have hdeadline : wp (tryLeaseJob X config env) _ _ t :=
      (wp_bind _ _).mpr (wp_get.mpr (tryLeaseLoop_deadline rfl _))
    unfold finalState at hleases
    unfold wp at hends hdeadline
    rcases hcall : tryLeaseJob X config env t with ⟨found, s'⟩ | ⟨c, s'⟩ <;>
      rw [hcall] at hleases hends hdeadline
    · have hsome := hfound found s' hcall hleases
      have hfits := hdeadline hleases hsome
      obtain ⟨job, rfl⟩ := Option.isSome_iff_exists.mp hsome
      exact ⟨iff_of_true ⟨job, s', rfl⟩ hfits, iff_of_false (by simp) (not_not.mpr hfits)⟩
    · have hnot := hdeadline hleases hends
      exact ⟨iff_of_false (by simp) hnot, iff_of_true ⟨s', hends ▸ rfl⟩ hnot⟩

def mailParked : Coordinator :=
  after Postcard.crates mailConfig (mailEnv ⟨2⟩ .none) (.handle (.fetchWork 8)) mailRetried

theorem mailParked_run (P : Fault → Prop) (hP : P .none) :
    Run Postcard.crates P mailConfig mailStart mailParked := by
  have henabled : (Op.handle (.fetchWork 8)).Enabled P (mailEnv ⟨2⟩ .none) mailRetried :=
    ⟨rfl, trivial, fun _ => hP, fun _ => rfl⟩
  exact ((mailLeased_run P hP).tail (mailRetried_step P hP)).tail (.exec henabled rfl)

def mailWoken : Coordinator :=
  finalState (beforeSelect Postcard.crates mailConfig
    { mailEnv ⟨2⟩ .none with instant := fun _ => ⟨10 ^ 9⟩ }) mailParked

/-- The round wakes the worker; and once the job is queued, a search finds it. -/
theorem no_idle_worker_woken :
    mailParked.parkedWorkers = [8] ∧ (mailWoken.store.get ⟨1⟩).map (·.state) = some .running ∧
    (mailWoken.parkedWorkers = [] ∨ ∀ id job, mailWoken.store.get id = some job →
      job.queue.asStr ∈ mailConfig.queueNames → job.state ≠ .queued) ∧
    ∃ job s', tryLeaseJob Postcard.crates mailConfig (mailEnv ⟨2⟩ .none)
      { mailRequeued with nextQueueIdx := 0 } = .ok (some job) s' := by
  refine ⟨rfl, by decide +kernel, ?_, ?_⟩
  · have hround : beforeSelect Postcard.crates mailConfig
        { mailEnv ⟨2⟩ .none with instant := fun _ => ⟨10 ^ 9⟩ } mailParked = .ok () mailWoken :=
      eq_ok_of_value (by decide +kernel)
    have hfailed : (newlyFailed mailParked mailWoken).isEmpty := by decide +kernel
    exact (no_idle_worker (.fresh mailBoot _ _) (mailParked_run (fun _ => True) trivial)).1
      _ _ hround (by decide +kernel) (by decide +kernel) (.of_isEmpty hfailed)
  · have hfailed : (newlyFailed mailRequeued (finalState (tryLeaseJob Postcard.crates mailConfig
        (mailEnv ⟨2⟩ .none)) { mailRequeued with nextQueueIdx := 0 })).isEmpty := by decide +kernel
    have hqueued : mailRequeued.store.get ⟨1⟩ =
        some ⟨⟨1⟩, ⟨"mail"⟩, ⟨[1, 2], 3⟩, .queued, 1, ⟨0⟩⟩ := by decide +kernel
    have hsearch := (no_idle_worker (.fresh mailBoot _ _)
      (mailRequeued_run (fun _ => True) trivial)).2 (mailEnv ⟨2⟩ .none) 0 (by decide)
      ⟨⟨1⟩, _, hqueued, by decide, rfl⟩
    have hfits : Instant.Fits ⟨0⟩ mailConfig.visibilityTimeout := by decide
    exact (hsearch.2 (fun _ => ⟨_, rfl⟩) (.of_isEmpty hfailed)).1.mpr hfits

def endlessConfig : RuntimeConfig :=
  { mailConfig with visibilityTimeout := ⟨Duration.maxNanos, le_rfl⟩ }

def endlessStart : Coordinator :=
  newWithRecovery mailBoot endlessConfig (.wal WriterThread.fresh) (newSemaphores endlessConfig) none

def endlessSubmitted : Coordinator := submitJob endlessConfig "mail" ⟨1⟩ endlessStart

/-- The configuration is valid, a job is queued and its lease is persisted, but no search
returns it: the coordinator's task panics. -/
theorem lease_deadline_panics :
    endlessConfig.validate = .ok () ∧
    Run Postcard.crates (· = .none) endlessConfig endlessStart endlessSubmitted ∧
    (endlessSubmitted.store.get ⟨1⟩).map (·.state) = some .queued ∧
    ∃ s', tryLeaseJob Postcard.crates endlessConfig (mailEnv ⟨2⟩ .none) endlessSubmitted =
        .error .panic s' ∧
      s'.acked = endlessSubmitted.acked ++ [.jobLeased ⟨1⟩ ⟨1⟩ 1 ⟨0⟩] := by
  have hsem : endlessStart.semaphores.get "mail" = some (Semaphore.new 1) := rfl
  have hrun : Run Postcard.crates (· = .none) endlessConfig endlessStart endlessSubmitted :=
    submitJob_run (P := (· = .none)) rfl "mail" ⟨1⟩ hsem (by decide) rfl rfl rfl rfl
  exact ⟨rfl, hrun, rfl, _, rfl, rfl⟩

end Coordinator

end DurableQueue
