import DurableQueue.Defs.RuntimeLaws

/-! How an operation of the coordinator can end early: its process is killed while it appends to
the log, or its task panics at the sum of an instant and a duration. -/

namespace DurableQueue

/-- The durations that the coordinator adds to the present instant. -/
def RuntimeConfig.Waits (config : RuntimeConfig) (d : Duration) : Prop :=
  d = config.visibilityTimeout ∨ d = config.shutdownTimeout ∨
    ∃ attempt rng, d = config.retry.delayWithRng attempt rng

namespace Coordinator

variable {X : Crates} {config : RuntimeConfig} {env : Env} {E : Crash → Prop}

theorem persist_ends (hfate : ∀ t, ∃ fault, env.fate t = .returns fault) (r : WalRecord) :
    Ends E (persist X env r) := by
  intro s
  obtain ⟨fault, hfate⟩ := hfate s.tick
  unfold wp persist
  rw [hfate]
  simp only
  split <;> rename_i heq
  · trivial
  · split at heq <;> cases heq

theorem nowPlus_ends {d : Duration} (hpanic : ∀ t, ¬(env.instant t).Fits d → E .panic) :
    Ends E (nowPlus env d) := fun _ => wp_nowPlus (fun _ => trivial) (hpanic _)

theorem applyRecord_ends (r : WalRecord) : Ends E (applyRecord r) :=
  fun _ => wp_applyRecord (fun _ => trivial) fun _ => trivial

theorem draw_ends {α : Type} (source : Nat → α) : Ends E (draw source) := .of_modifyGet _

section

variable (hpersist : ∀ r, Ends E (persist X env r))

include hpersist

theorem doCancel_ends (id : JobId) : Ends E (doCancel X env id) := by
  refine .bind .of_get fun s => ?_
  cases s.store.get id with
  | none => exact .of_pure _
  | some job =>
    simp only
    split
    · exact .of_pure _
    refine .bind (draw_ends _) fun _ => .bind (hpersist _) fun result => ?_
    cases result with
    | error e => exact .of_pure _
    | ok seq =>
      refine .bind (applyRecord_ends _) fun applied => ?_
      cases applied with
      | error e => exact .of_pure _
      | ok _ => exact .bind .of_get fun _ => .bind (.of_modify _) fun _ => .of_pure _

theorem finishJob_ends (id : JobId) (queue : QueueName) (record : UnixMillis → WalRecord)
    (count : QueueStats → QueueStats) (countGlobal : GlobalStats → GlobalStats) :
    Ends E (finishJob X env id queue record count countGlobal) := by
  refine .bind (draw_ends _) fun _ => .bind (hpersist _) fun result => ?_
  cases result with
  | error e => exact .of_pure _
  | ok seq =>
    refine .bind (applyRecord_ends _) fun applied => ?_
    cases applied with
    | error e => exact .of_pure _
    | ok _ => exact .of_modify _

/-! ### Leases -/

section

variable (hlease : Ends E (nowPlus env config.visibilityTimeout))

include hlease

theorem leaseFront_ends (queue : String) : Ends E (leaseFront X config env queue) := by
  refine .bind .of_get fun s => ?_
  cases s.queues.get queue with
  | none => exact .of_pure _
  | some qs =>
    simp only
    cases qs.ready.head? with
    | none => exact .of_pure _
    | some id =>
      simp only
      cases s.store.get id with
      | none => exact .of_pure _
      | some job =>
        simp only
        split
        · exact .of_pure _
        refine .bind (draw_ends _) fun _ => .bind (hpersist _) fun result => ?_
        cases result with
        | error e => exact .of_pure _
        | ok seq =>
          refine .bind (.of_modify _) fun _ => .bind (applyRecord_ends _) fun applied => ?_
          cases applied with
          | error e => exact .of_pure _
          | ok _ =>
            refine .bind hlease fun _ => .bind (.of_modify _) fun _ => .bind .of_get fun s' => ?_
            split <;> exact .of_pure _

theorem tryLeaseJob_ends : Ends E (tryLeaseJob X config env) := by
  refine .bind .of_get fun s => ?_
  generalize s.queueOrder.length = n
  suffices hloop : ∀ rounds, Ends E (tryLeaseLoop X config env n rounds) from hloop n
  intro rounds
  induction rounds with
  | zero => exact .of_pure _
  | succ rounds ih =>
    refine .bind .of_get fun s => .bind (.of_set _) fun _ =>
      .bind (leaseFront_ends hpersist hlease _) fun r => ?_
    cases r with
    | none => exact ih
    | some result => exact .of_pure _

theorem tryDispatchParkedWorkers_ends : Ends E (tryDispatchParkedWorkers X config env) := by
  have hloop : ∀ rounds, Ends E (dispatchLoop X config env rounds) := by
    intro rounds
    induction rounds with
    | zero => exact .of_pure _
    | succ rounds ih =>
      refine .bind .of_get fun s => ?_
      split
      · exact .of_pure _
      refine .bind (tryLeaseJob_ends hpersist hlease) fun leased => ?_
      cases leased with
      | none => exact .of_pure _
      | some job =>
        refine .bind .of_get fun s' => ?_
        split
        · exact ih
        · exact .bind (.of_modify _) fun _ => ih
  refine .bind .of_get fun s => ?_
  split
  · exact .of_pure _
  · exact .bind .of_get fun s' => hloop _

theorem doFetchWork_ends (reply : Sender) : Ends E (doFetchWork X config env reply) := by
  refine .bind .of_get fun s => ?_
  split
  · exact .of_modify _
  refine .bind (tryLeaseJob_ends hpersist hlease) fun leased => ?_
  cases leased <;> exact .of_modify _

theorem doSubmit_ends (queue : QueueName) (spec : JobSpec) (permit : OwnedSemaphorePermit) :
    Ends E (doSubmit X config env queue spec permit) := by
  refine .bind .of_get fun s => ?_
  split
  · exact .of_pure _
  split
  · exact .of_pure _
  refine .bind (draw_ends _) fun _ => .bind (draw_ends _) fun _ =>
    .bind (hpersist _) fun result => ?_
  cases result with
  | error e => exact .of_pure _
  | ok seq =>
    refine .bind (applyRecord_ends _) fun applied => ?_
    cases applied with
    | error e => exact .of_pure _
    | ok _ =>
      exact .bind .of_get fun _ => .bind (.of_modify _) fun _ =>
        .bind (tryDispatchParkedWorkers_ends hpersist hlease) fun _ => .of_pure _

end

/-! ### All operations -/

section

variable (hnow : ∀ d, config.Waits d → Ends E (nowPlus env d))

include hnow

theorem retryOrDie_ends (id : JobId) (leaseId : LeaseId) (job : JobRecord) :
    Ends E (retryOrDie X config env id leaseId job) := by
  unfold retryOrDie
  split
  · exact finishJob_ends hpersist _ _ _ _ _
  refine .bind (draw_ends _) fun rng => .bind (draw_ends _) fun _ =>
    .bind (hpersist _) fun result => ?_
  cases result with
  | error e => exact .of_pure _
  | ok seq =>
    refine .bind (applyRecord_ends _) fun applied => ?_
    cases applied with
    | error e => exact .of_pure _
    | ok _ => exact .bind (hnow _ (Or.inr (Or.inr ⟨_, rng, rfl⟩))) fun _ => .of_modify _

theorem doWorkerOutcome_ends (id : JobId) (leaseId : LeaseId) (outcome : WorkerOutcome) :
    Ends E (doWorkerOutcome X config env id leaseId outcome) := by
  refine .bind .of_get fun s => ?_
  cases s.leases.get id with
  | none => exact .of_modify _
  | some lease =>
    simp only
    split
    · exact .of_modify _
    refine .bind (.of_modify _) fun _ => .bind .of_get fun s' => ?_
    cases s'.store.get id with
    | none => exact .of_pure _
    | some job =>
      cases outcome with
      | success | fatal => exact finishJob_ends hpersist _ _ _ _ _
      | retryable | panic => exact retryOrDie_ends hpersist hnow _ _ _

theorem checkLeaseTimeouts_ends : Ends E (checkLeaseTimeouts X config env) := by
  have hexpire : ∀ l, Ends E (expireLeases X config env l) := by
    intro l
    induction l with
    | nil => exact .of_pure _
    | cons x rest ih =>
      refine .bind (.bind .of_get fun s => ?_) fun _ => ih
      split
      · exact .of_pure _
      refine .bind (.of_modify _) fun _ => .bind .of_get fun s' => ?_
      cases s'.store.get x.1 with
      | none => exact .of_pure _
      | some job => exact retryOrDie_ends hpersist hnow _ _ _
  exact .bind (draw_ends _) fun _ => .bind (draw_ends _) fun _ => .bind .of_get fun _ => hexpire _

theorem handle_ends (cmd : Command) : Ends E (handle X config env cmd) := by
  have hlease := hnow _ (Or.inl rfl)
  cases cmd with
  | submit queue spec permit reply =>
    refine .bind (.bind .of_get fun s => ?_) fun _ => .bind (.of_modify _) fun _ => .of_modify _
    split
    · exact .of_pure _
    · exact doSubmit_ends hpersist hlease _ _ _
  | status id reply =>
    refine .bind (.bind .of_get fun s => ?_) fun _ => .of_modify _
    cases s.store.get id <;> exact .of_pure _
  | cancel id reply => exact .bind (doCancel_ends hpersist id) fun _ => .of_modify _
  | stats reply => exact .of_modify _
  | fetchWork reply => exact doFetchWork_ends hpersist hlease reply
  | workerOutcome id leaseId outcome => exact doWorkerOutcome_ends hpersist hnow _ _ _
  | shutdown reply =>
    refine .bind .of_get fun s => ?_
    split
    · exact .of_modify _
    refine .bind (.of_modify _) fun _ => .bind (.of_modify _) fun _ => .bind .of_get fun s' => ?_
    split
    · exact .of_modify _
    · exact .bind (hnow _ (Or.inr (Or.inl rfl))) fun _ => .of_modify _

theorem exec_ends (op : Op) : Ends E (exec X config env op) := by
  cases op with
  | processDueRetries =>
    refine .bind (draw_ends _) fun now => .bind .of_get fun s => ?_
    generalize s.retryQueue.length = rounds
    induction rounds with
    | zero => exact .of_pure _
    | succ rounds ih =>
      refine .bind (draw_ends _) fun order => .bind .of_get fun s => ?_
      split
      · exact .of_pure _
      · split
        · exact .of_pure _
        · exact .bind (.of_modify _) fun _ => ih
  | checkLeaseTimeouts => exact checkLeaseTimeouts_ends hpersist hnow
  | tryDispatchParkedWorkers => exact tryDispatchParkedWorkers_ends hpersist (hnow _ (Or.inl rfl))
  | checkExit =>
    refine .bind .of_get fun s => ?_
    split
    · exact .of_set _
    split
    · exact .of_pure _
    · refine .bind (draw_ends _) fun now => ?_
      split
      · exact .of_modify _
      · exact .of_pure _
  | handle cmd => exact handle_ends hpersist hnow cmd
  | hangUp => exact .of_modify _

end

end

/-- An operation goes through if its process is not killed and no deadline lies beyond the last
instant. -/
theorem exec_completes {op : Op} (hfate : ∀ t, ∃ fault, env.fate t = .returns fault)
    (hfits : ∀ t d, config.Waits d → (env.instant t).Fits d) (s : Coordinator) :
    ∃ s', exec X config env op s = .ok () s' := by
  have hends : Ends (fun _ => False) (exec X config env op) :=
    exec_ends (persist_ends hfate) (fun d hd => nowPlus_ends fun t ht => ht (hfits t d hd)) op
  obtain ⟨_, s', heq, _⟩ := wp_exists_ok (hends s)
  exact ⟨s', heq⟩

end Coordinator

end DurableQueue
