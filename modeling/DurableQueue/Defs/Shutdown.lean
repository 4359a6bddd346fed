import DurableQueue.Defs.RuntimeLaws
import DurableQueue.Defs.Coordinator.Leases

/-! What happens between the first shutdown command and the end of the loop. -/

namespace DurableQueue

/-- The part of a coordinator's state that steers its shutdown. -/
structure Control where
  shuttingDown : Bool
  deadline : Option Instant
  reply : Option Sender
  token : Bool
  /-- the shutdown commands that have been answered -/
  done : List Sender
  /-- the jobs that workers have been sent -/
  handed : List (Sender × LeasedJob)
  parked : List Sender

namespace Coordinator

variable {X : Crates} {P : Fault → Prop} {config : RuntimeConfig} {env : Env}
  {s₀ s s' : Coordinator}

def doneReplies (s : Coordinator) : List Sender :=
  s.sent.filterMap fun
    | (reply, .done) => some reply
    | _ => none

def handed (s : Coordinator) : List (Sender × LeasedJob) :=
  s.sent.filterMap fun
    | (reply, .work (some job)) => some (reply, job)
    | _ => none

def control (s : Coordinator) : Control :=
  ⟨s.shuttingDown, s.shutdownDeadline, s.shutdownReply, s.shutdownToken, s.doneReplies,
    s.handed, s.parkedWorkers⟩

/-- The same without the workers that wait for a job and those that got one. -/
def phase (s : Coordinator) : Control := { s.control with handed := [], parked := [] }

/-- The same with the round-robin cursor. -/
def steering (s : Coordinator) : Control × Nat := (s.control, s.nextQueueIdx)

theorem steering_eq (hcontrol : s'.control = s.control)
    (hcursor : s'.nextQueueIdx = s.nextQueueIdx) : s'.steering = s.steering := by
  rw [steering, hcontrol, hcursor, steering]

/-! ## Operations that do not steer -/

theorem control_send_job (reply : Sender) (result : Except Error JobRecord) (s : Coordinator) :
    (send reply (.job result) s).control = s.control := by
  simp [control, doneReplies, handed, send]

theorem control_send_none (reply : Sender) (s : Coordinator) :
    (send reply (.work none) s).control = s.control := by
  simp [control, doneReplies, handed, send]

theorem control_send_stats (reply : Sender) (snapshot : StatsSnapshot) (s : Coordinator) :
    (send reply (.stats snapshot) s).control = s.control := by
  simp [control, doneReplies, handed, send]

theorem draw_keeps {α : Type} (source : Nat → α) : Keeps steering (draw source) :=
  .of_modifyGet fun _ => rfl

theorem nowPlus_keeps (d : Duration) : Keeps steering (nowPlus env d) :=
  fun _ => wp_nowPlus (fun _ => rfl) fun _ => rfl

theorem persist_keeps (r : WalRecord) : Keeps steering (persist X env r) := fun _ =>
  wp_persist (P := fun _ => True) (fun _ => trivial) (fun _ _ _ _ _ => rfl) (fun _ _ _ _ _ => rfl)
    fun _ _ _ => rfl

theorem applyRecord_keeps (r : WalRecord) : Keeps steering (applyRecord r) := by
  intro s
  unfold wp applyRecord
  cases s.store.applyRecord r <;> rfl

theorem steering_cancelLease (id : JobId) (s : Coordinator) :
    (s.cancelLease id).steering = s.steering := rfl

theorem steering_exposeCancel (id : JobId) (queue : String) (st : JobState) (s : Coordinator) :
    (exposeCancel id queue st s).steering = s.steering := by
  rw [exposeCancel_eq]
  rfl

theorem persist_apply_keeps {α : Type} {r : WalRecord} {f : CoordM α} {g : WalError → CoordM α}
    {g' : Error → CoordM α} (hf : Keeps steering f) (hg : ∀ e, Keeps steering (g e))
    (hg' : ∀ e, Keeps steering (g' e)) :
    Keeps steering (do
      match ← persist X env r with
      | .error e => g e
      | .ok _ =>
        match ← applyRecord r with
        | .error e => g' e
        | .ok () => f) := by
  refine .bind (persist_keeps r) fun result => ?_
  cases result with
  | error e => exact hg e
  | ok seq =>
    refine .bind (applyRecord_keeps r) fun result => ?_
    cases result with
    | error e => exact hg' e
    | ok _ => exact hf

theorem finishJob_keeps (id : JobId) (queue : QueueName) (record : UnixMillis → WalRecord)
    (count : QueueStats → QueueStats) (countGlobal : GlobalStats → GlobalStats) :
    Keeps steering (finishJob X env id queue record count countGlobal) :=
  .bind (draw_keeps _) fun _ =>
    persist_apply_keeps (.of_modify fun _ => rfl) (fun _ => .of_pure _) fun _ => .of_pure _

theorem scheduleRetry_keeps (id : JobId) (l : LeaseId) (queue : QueueName) (attempt : UInt32) :
    Keeps steering (scheduleRetry X config env id l queue attempt) :=
  .bind (draw_keeps _) fun _ => .bind (draw_keeps _) fun _ =>
    persist_apply_keeps (.bind (nowPlus_keeps _) fun _ => .of_modify fun _ => rfl)
      (fun _ => .of_pure _) fun _ => .of_pure _

theorem retryOrDie_keeps (id : JobId) (l : LeaseId) (job : JobRecord) :
    Keeps steering (retryOrDie X config env id l job) := by
  unfold retryOrDie
  split
  · exact finishJob_keeps _ _ _ _ _
  · exact scheduleRetry_keeps _ _ _ _

theorem doWorkerOutcome_keeps (id : JobId) (l : LeaseId) (outcome : WorkerOutcome) :
    Keeps steering (doWorkerOutcome X config env id l outcome) := by
  refine .bind .of_get fun s => ?_
  cases s.leases.get id with
  | none => exact .of_modify fun _ => rfl
  | some lease =>
    dsimp only
    split
    · exact .of_modify fun _ => rfl
    · refine .bind (.of_modify fun _ => rfl) fun _ => .bind .of_get fun s => ?_
      cases s.store.get id with
      | none => exact .of_pure _
      | some job =>
        cases outcome with
        | success | fatal => exact finishJob_keeps _ _ _ _ _
        | retryable | panic => exact retryOrDie_keeps _ _ _

theorem doCancel_keeps (id : JobId) : Keeps steering (doCancel X env id) := by
  refine .bind .of_get fun s => ?_
  cases s.store.get id with
  | none => exact .of_pure _
  | some job =>
    dsimp only
    split
    · exact .of_pure _
    · refine .bind (draw_keeps _) fun _ => persist_apply_keeps ?_ (fun _ => .of_pure _)
        fun _ => .of_pure _
      refine .bind .of_get fun _ => .bind (.of_modify ?_) fun _ => .of_pure _
      exact steering_exposeCancel _ _ _

theorem doStatus_keeps (id : JobId) : Keeps steering (doStatus id) := by
  refine .bind .of_get fun s => ?_
  cases s.store.get id <;> exact .of_pure _

theorem expireLeases_keeps : ∀ timedOut, Keeps steering (expireLeases X config env timedOut)
  | [] => .of_pure _
  | (id, l) :: rest => by
    refine .bind ?_ fun _ => expireLeases_keeps rest
    refine .bind .of_get fun s => ?_
    split
    · exact .of_pure _
    · refine .bind (.of_modify (steering_cancelLease id)) fun _ => .bind .of_get fun s => ?_
      cases s.store.get id with
      | none => exact .of_pure _
      | some job => exact retryOrDie_keeps _ _ _

theorem checkLeaseTimeouts_keeps : Keeps steering (checkLeaseTimeouts X config env) :=
  .bind (draw_keeps _) fun _ => .bind (draw_keeps _) fun _ => .bind .of_get fun _ =>
    expireLeases_keeps _

theorem steering_popDueRetry (entry : RetryEntry) (s : Coordinator) :
    (s.popDueRetry entry).steering = s.steering := by
  unfold popDueRetry
  dsimp only
  split
  · rfl
  · split
    · rfl
    · split <;> rfl

theorem dueRetriesLoop_keeps (now : Instant) : ∀ n, Keeps steering (dueRetriesLoop env now n)
  | 0 => .of_pure _
  | n + 1 => by
    refine .bind (draw_keeps _) fun order => .bind .of_get fun s => ?_
    cases (order.arrange s.retryQueue).argmin (·.availableAt.nanos) with
    | none => exact .of_pure _
    | some entry =>
      dsimp only
      split
      · exact .of_pure _
      · exact .bind (.of_modify (steering_popDueRetry entry)) fun _ => dueRetriesLoop_keeps now n

theorem processDueRetries_keeps : Keeps steering (processDueRetries env) :=
  .bind (draw_keeps _) fun _ => .bind .of_get fun _ => dueRetriesLoop_keeps _ _

theorem leaseFront_keeps (queue : String) : Keeps steering (leaseFront X config env queue) := by
  refine .bind .of_get fun s => ?_
  cases s.queues.get queue with
  | none => exact .of_pure _
  | some qs =>
    dsimp only
    cases qs.ready.head? with
    | none => exact .of_pure _
    | some id =>
      dsimp only
      cases s.store.get id with
      | none => exact .of_pure _
      | some job =>
        dsimp only
        split
        · exact .of_pure _
        · refine .bind (draw_keeps _) fun _ => .bind (persist_keeps _) fun result => ?_
          cases result with
          | error => exact .of_pure _
          | ok =>
            refine .bind (.of_modify fun _ => rfl) fun _ => .bind (applyRecord_keeps _) fun result => ?_
            cases result with
            | error => exact .of_pure _
            | ok =>
              refine .bind (nowPlus_keeps _) fun _ => .bind (.of_modify fun _ => rfl) fun _ =>
                .bind .of_get fun s => ?_
              cases s.store.get id <;> exact .of_pure _

theorem keeps_control {α : Type} {m : CoordM α} (h : Keeps steering m) : Keeps control m := by
  have hcontrol := h.comp Prod.fst
  exact hcontrol

theorem keeps_cursor {α : Type} {m : CoordM α} (h : Keeps steering m) :
    Keeps nextQueueIdx m := by
  have hcursor := h.comp Prod.snd
  exact hcursor

theorem tryLeaseLoop_keeps (n : Nat) : ∀ rounds, Keeps control (tryLeaseLoop X config env n rounds)
  | 0 => .of_pure _
  | rounds + 1 => by
    refine .get_set (fun _ => rfl) fun s =>
      .bind (keeps_control (leaseFront_keeps _)) fun result => ?_
    cases result with
    | none => exact tryLeaseLoop_keeps n rounds
    | some => exact .of_pure _

theorem tryLeaseJob_keeps : Keeps control (tryLeaseJob X config env) :=
  .bind .of_get fun _ => tryLeaseLoop_keeps _ _

/-! ## Operations that may park a worker or hand out a job -/

theorem Keeps.phase {α : Type} {m : CoordM α} (h : Keeps control m) : Keeps phase m := by
  have hphase := h.comp fun c => ({ c with handed := [], parked := [] } : Control)
  exact hphase

theorem phase_eq_of_control (h : s'.control = s.control) : s'.phase = s.phase := by
  rw [phase, h, phase]

theorem phase_send_work (reply : Sender) (job : Option LeasedJob) (s : Coordinator) :
    (send reply (.work job) s).phase = s.phase := by
  simp [phase, control, doneReplies, send]

theorem dispatchLoop_phase : ∀ n, Keeps phase (dispatchLoop X config env n)
  | 0 => .of_pure _
  | n + 1 => by
    refine .bind .of_get fun s => ?_
    split
    · exact .of_pure _
    · refine .bind (Keeps.phase tryLeaseJob_keeps) fun job => ?_
      cases job with
      | none => exact .of_pure _
      | some job =>
        refine .bind .of_get fun s => ?_
        cases s.parkedWorkers with
        | nil => exact dispatchLoop_phase n
        | cons worker rest =>
          refine .bind (.of_modify fun s => ?_) fun _ => dispatchLoop_phase n
          exact phase_send_work worker (some job) { s with parkedWorkers := rest }

theorem tryDispatchParkedWorkers_phase : Keeps phase (tryDispatchParkedWorkers X config env) := by
  refine .bind .of_get fun s => ?_
  split
  · exact .of_pure _
  · exact .bind .of_get fun _ => dispatchLoop_phase _

theorem doFetchWork_phase (reply : Sender) : Keeps phase (doFetchWork X config env reply) := by
  refine .bind .of_get fun s => ?_
  split
  · exact .of_modify fun _ => phase_send_work _ _ _
  · refine .bind (Keeps.phase tryLeaseJob_keeps) fun job => ?_
    cases job with
    | none => exact .of_modify fun _ => rfl
    | some => exact .of_modify fun _ => phase_send_work _ _ _

theorem doSubmit_phase (queue : QueueName) (spec : JobSpec) (permit : OwnedSemaphorePermit) :
    Keeps phase (doSubmit X config env queue spec permit) := by
  refine .bind .of_get fun s => ?_
  split
  · exact .of_pure _
  · split
    · exact .of_pure _
    · refine .bind (Keeps.phase (keeps_control (draw_keeps _))) fun _ =>
        .bind (Keeps.phase (keeps_control (draw_keeps _))) fun _ =>
        .bind (Keeps.phase (keeps_control (persist_keeps _))) fun result => ?_
      cases result with
      | error => exact .of_pure _
      | ok =>
        refine .bind (Keeps.phase (keeps_control (applyRecord_keeps _))) fun result => ?_
        cases result with
        | error => exact .of_pure _
        | ok =>
          exact .bind .of_get fun _ => .bind (.of_modify fun _ => rfl) fun _ =>
            .bind tryDispatchParkedWorkers_phase fun _ => .of_pure _

end Coordinator

namespace Op

def steers : Op → Bool
  | .checkExit | .handle (.shutdown _) => true
  | _ => false

def leases : Op → Bool
  | .tryDispatchParkedWorkers | .handle (.fetchWork _) | .handle (.submit ..) => true
  | _ => false

end Op

namespace Coordinator

theorem control_returnPermit_of_error (result : Except Error JobRecord)
    (permit : OwnedSemaphorePermit) (s : Coordinator) :
    (match result with
      | .ok _ => s
      | .error _ => s.returnPermit permit).control = s.control := by
  cases result <;> rfl

theorem exec_keeps : ∀ {op : Op}, op.steers = false → op.leases = false →
    Keeps steering (exec X config env op)
  | .processDueRetries, _, _ => processDueRetries_keeps
  | .checkLeaseTimeouts, _, _ => checkLeaseTimeouts_keeps
  | .hangUp, _, _ => .of_modify fun _ => rfl
  | .handle (.status id _), _, _ =>
    .bind (doStatus_keeps id) fun _ => .of_modify fun s => steering_eq (control_send_job _ _ s) rfl
  | .handle (.cancel id _), _, _ =>
    .bind (doCancel_keeps id) fun _ => .of_modify fun s => steering_eq (control_send_job _ _ s) rfl
  | .handle (.stats _), _, _ => .of_modify fun s => steering_eq (control_send_stats _ _ s) rfl
  | .handle (.workerOutcome id l outcome), _, _ => doWorkerOutcome_keeps id l outcome

theorem exec_phase : ∀ {op : Op}, op.steers = false → Keeps phase (exec X config env op)
  | .tryDispatchParkedWorkers, _ => tryDispatchParkedWorkers_phase
  | .handle (.fetchWork reply), _ => doFetchWork_phase reply
  | .handle (.submit queue spec permit _), _ => by
    refine .bind ?_ fun result => .bind (.of_modify fun s => phase_eq_of_control
      (control_returnPermit_of_error result permit s)) fun _ => .of_modify fun s =>
        phase_eq_of_control (control_send_job _ _ s)
    refine .bind .of_get fun s => ?_
    split
    · exact .of_pure _
    · exact doSubmit_phase queue spec permit
  | .processDueRetries, h | .checkLeaseTimeouts, h | .hangUp, h | .handle (.status ..), h
  | .handle (.cancel ..), h | .handle (.stats _), h | .handle (.workerOutcome ..), h =>
    Keeps.phase (keeps_control (exec_keeps h rfl))

theorem exec_control {op : Op} (hop : op.steers = false) (hdown : s.shuttingDown = true)
    (h : exec X config env op s = .ok () s') : s'.control = s.control := by
  cases hleases : op.leases with
  | false => exact (keeps_control (exec_keeps hop hleases)).ok h
  | true =>
    refine wp_ok (Q := fun _ s' => s'.control = s.control) (E := fun _ _ => True) ?_ h
    match op with
    | .tryDispatchParkedWorkers => simp [exec, tryDispatchParkedWorkers, hdown]
    | .handle (.fetchWork reply) => simp [exec, handle, doFetchWork, hdown, control_send_none]
    | .handle (.submit queue spec permit reply) =>
      simp [exec, handle, submitResult, hdown, control_send_job]
      rfl

/-! ## Operations that steer -/

theorem exec_shutdown_again {reply : Sender} (hdown : s.shuttingDown = true)
    (h : exec X config env (.handle (.shutdown reply)) s = .ok () s') :
    s' = send reply .done s := by
  refine wp_ok (Q := fun _ s' => s' = send reply .done s) (E := fun _ _ => True) ?_ h
  simp [exec, handle, startShutdown, hdown]

theorem doneReplies_send_done (reply : Sender) (s : Coordinator) :
    (send reply .done s).doneReplies = s.doneReplies ++ [reply] := by
  simp [doneReplies, send]

theorem exec_shutdown_first {reply : Sender} (hup : s.shuttingDown = false)
    (h : exec X config env (.handle (.shutdown reply)) s = .ok () s') :
    s'.control = if s.leases.keys = [] then
        ⟨true, s.shutdownDeadline, s.shutdownReply, true, s.doneReplies ++ [reply], s.handed, []⟩
      else
        ⟨true, some ((env.instant s.tick).add config.shutdownTimeout), some reply, true,
          s.doneReplies, s.handed, []⟩ := by
  refine wp_ok (Q := fun _ s' => s'.control = _) (E := fun _ _ => True) ?_ h
  refine (wp_bind _ _).mpr (wp_get.mpr ?_)
  rw [hup, if_neg Bool.false_ne_true]
  refine (wp_bind _ _).mpr ((wp_modify _).mpr ((wp_bind _ _).mpr ((wp_modify _).mpr
    ((wp_bind _ _).mpr (wp_get.mpr ?_)))))
  by_cases hleases : s.leases.keys = []
  · simp [closeSemaphores, hleases, control, doneReplies, handed, send]
  · rw [if_neg hleases]
    split
    · rename_i hempty
      exact absurd (List.isEmpty_iff.mp hempty) hleases
    refine (wp_bind _ _).mpr (wp_nowPlus (fun _ => ?_) fun _ => trivial)
    simp [closeSemaphores, control, doneReplies, handed]

theorem control_completeShutdown (s : Coordinator) : s.completeShutdown.exit.control =
    { s.control with reply := none, done := s.control.done ++ s.control.reply.toList } := by
  simp only [completeShutdown, exit, closeSemaphores, control, doneReplies, handed]
  cases s.shutdownReply <;> simp

theorem control_cancelLeases (ids : List JobId) (s : Coordinator) :
    (ids.foldl (fun s id => s.cancelLease id) s).control = s.control := by
  induction ids generalizing s with
  | nil => rfl
  | cons id ids ih => exact (ih _).trans (congrArg Prod.fst (steering_cancelLease id s))

def MayExit (now : Instant) (s : Coordinator) : Prop :=
  s.leases.keys = [] ∨ ∃ deadline, s.shutdownDeadline = some deadline ∧ deadline.nanos ≤ now.nanos

theorem exec_checkExit (h : exec X config env .checkExit s = .ok () s') :
    s'.control = s.control ∨ s.MayExit (env.instant s.tick) ∧ s'.control =
      { s.control with reply := none, done := s.control.done ++ s.control.reply.toList } := by
  refine wp_ok (Q := fun _ s' => s'.control = s.control ∨ s.MayExit (env.instant s.tick) ∧
    s'.control = _) (E := fun _ _ => True) ?_ h
  by_cases hempty : s.shuttingDown = true ∧ s.leases.keys = []
  · simp only [exec, checkExit, wp_bind, wp_get, hempty, List.isEmpty_nil, Bool.and_self, if_true,
      wp_set]
    exact Or.inr ⟨Or.inl hempty.2, control_completeShutdown s⟩
  · cases hdeadline : s.shutdownDeadline with
    | none => simp [exec, checkExit, hempty, hdeadline]
    | some deadline =>
      by_cases hlate : deadline.nanos ≤ (env.instant s.tick).nanos
      · simp [exec, checkExit, hempty, hdeadline, draw, hlate]
        refine Or.inr ⟨Or.inr ⟨deadline, hdeadline, hlate⟩, ?_⟩
        rw [forceShutdown, control_completeShutdown, control_cancelLeases]
        simp [control, doneReplies, handed, hdeadline]
      · simp [exec, checkExit, hempty, hdeadline, draw, hlate, control, doneReplies, handed]

/-! ## Records of a shutdown -/

def OnlyLogs (B : WalRecord → Prop) (s s' : Coordinator) : Prop :=
  ∃ acked failed, s'.acked = s.acked ++ acked ∧ s'.failed = s.failed ++ failed ∧
    ∀ r ∈ acked ++ failed, B r

variable {A : Coordinator → WalRecord → Prop} {B : WalRecord → Prop}

theorem OnlyLogs.refl (s : Coordinator) : OnlyLogs B s s :=
  ⟨[], [], by simp, by simp, fun _ h => nomatch h⟩

theorem OnlyLogs.trans {s₁ s₂ s₃ : Coordinator} (h : OnlyLogs B s₁ s₂) (h' : OnlyLogs B s₂ s₃) :
    OnlyLogs B s₁ s₃ := by
  obtain ⟨acked, failed, hacked, hfailed, hB⟩ := h
  obtain ⟨acked', failed', hacked', hfailed', hB'⟩ := h'
  refine ⟨acked ++ acked', failed ++ failed', ?_, ?_, fun r hr => ?_⟩
  · rw [hacked', hacked, List.append_assoc]
  · rw [hfailed', hfailed, List.append_assoc]
  · simp only [List.mem_append] at hr hB hB'
    grind

theorem StepOf.onlyLogs (h : StepOf X P A s s') (hA : ∀ s r, A s r → B r) : OnlyLogs B s s' := by
  obtain ⟨hstep, hallowed⟩ := h
  cases hstep with
  | quiet h =>
    refine ⟨[], [], ?_, ?_, fun _ h => nomatch h⟩
    · rw [acked, h.journal, acked, List.append_nil]
    · rw [failed, h.journal, failed, List.append_nil]
  | @ack r _ _ _ _ _ h _ _ tick =>
    refine ⟨[r], [], h.acked_ack _ tick, by rw [h.failed_ack, List.append_nil], fun r' hr' => ?_⟩
    cases List.mem_singleton.mp hr'
    exact hA s r (hallowed r (.inl (h.acked_ack _ tick)))
  | @nack r _ _ _ _ _ h _ _ tick =>
    refine ⟨[], [r], by rw [h.acked_nack, List.append_nil], h.failed_nack _ _ tick, fun r' hr' => ?_⟩
    cases List.mem_singleton.mp hr'
    exact hA s r (hallowed r (.inr (h.failed_nack _ _ tick)))
  | requeue | dropEntry | acquire | returnPermit => exact .refl s
  | forceShutdown =>
    refine ⟨[], [], ?_, ?_, fun _ h => nomatch h⟩
    · rw [acked_forceShutdown, List.append_nil]
    · rw [failed_forceShutdown, List.append_nil]

theorem DiesOf.onlyLogs {c : Crash} (h : DiesOf X A s c s') : OnlyLogs B s s' := by
  refine ⟨[], [], ?_, ?_, fun _ h => nomatch h⟩ <;> rw [List.append_nil]
  · cases h with
    | append hoffers => exact hoffers.acked
    | panic _ hjournal => rw [acked, hjournal, acked]
  · cases h with
    | append hoffers => exact hoffers.failed
    | panic _ hjournal => rw [failed, hjournal, failed]

theorem StepsOf.onlyLogs (h : StepsOf X P A s s') (hA : ∀ s r, A s r → B r) : OnlyLogs B s s' := by
  induction h with
  | refl => exact .refl s
  | tail _ hstep ih => exact ih.trans (hstep.onlyLogs hA)

/-- An operation that is cut short has logged only what its kind allows, and so is the record
it was appending. -/
theorem exec_cut (hs : Placement config s) {op : Op} (h : op.Enabled P env s)
    (hB : ∀ s₁ r, op.Persists s s₁ r → B r) {c : Crash}
    (hexec : exec X config env op s = .error c s') :
    OnlyLogs B s s' ∧ ∀ r file, c = .append r file → B r := by
  obtain ⟨_, hsteps, hdies⟩ := wp_error (exec_logs (X := X) hs h) hexec
  refine ⟨(StepsOf.onlyLogs hsteps hB).trans hdies.onlyLogs, ?_⟩
  rintro r file rfl
  obtain @⟨_, _, _, _, _, _, _, hr⟩ := hdies
  exact hB _ r hr


theorem StepOf.leasesShrink (h : StepOf X P A s s') (hA : ∀ s r, A s r → r.leasedEpoch = none) :
    LeasesShrink s s' := by
  obtain ⟨hstep, hallowed⟩ := h
  cases hstep.leaseStep with
  | ends ls _ h => exact h.shrink
  | grants id lease _ _ _ hepoch =>
    -- only the acknowledgement of a lease moves the epoch
    have hsame : s'.nextLeaseEpoch = s.nextLeaseEpoch := by
      cases hstep with
      | quiet h => exact h.nextLeaseEpoch
      | @ack r _ _ _ _ _ h _ _ tick =>
        rw [h.nextLeaseEpoch_ack, hA s r (hallowed r (.inl (h.acked_ack _ tick)))]
        rfl
      | nack h _ _ tick => exact h.nextLeaseEpoch
      | requeue | dropEntry | acquire | returnPermit => rfl
      | forceShutdown =>
        obtain ⟨_, _, _, _, heq, _⟩ := forceShutdown_frame s
        rw [heq]
    rw [hsame] at hepoch
    simp at hepoch

theorem StepsOf.leasesShrink (h : StepsOf X P A s s') (hA : ∀ s r, A s r → r.leasedEpoch = none) :
    LeasesShrink s s' := by
  induction h with
  | refl => exact fun _ _ h => h
  | tail _ hstep ih => exact fun id l hl => ih id l (hstep.leasesShrink hA id l hl)

end Coordinator

def WalRecord.Winds (r : WalRecord) : Prop := r.isSubmitted = false ∧ r.leasedEpoch = none

theorem Op.Persists.winds {op : Op} {s₀ s : Coordinator} {r : WalRecord}
    (h : op.Persists s₀ s r) (hdown : s₀.shuttingDown = true) : r.Winds := by
  cases h with
  | dispatch h | submit h | submitLease h | fetch h => rw [hdown] at h; cases h
  | timeoutRetry | timeoutDead | cancel | complete | fatal | retry | exhausted => exact ⟨rfl, rfl⟩

namespace Coordinator

theorem StepsOf.winds {op : Op} (h : StepsOf X P (op.Persists s₀) s s')
    (hdown : s₀.shuttingDown = true) :
    OnlyLogs WalRecord.Winds s s' ∧ LeasesShrink s s' :=
  ⟨StepsOf.onlyLogs h fun _ _ hr => hr.winds hdown,
    StepsOf.leasesShrink h fun _ _ hr => (hr.winds hdown).2⟩

/-! ## The whole shutdown -/

def Idle (s : Coordinator) : Prop :=
  s.shuttingDown = false →
    s.shutdownReply = none ∧ s.shutdownDeadline = none ∧ s.shutdownToken = false

structure Draining (reply : Sender) (deadline : Instant) (s : Coordinator) : Prop where
  down : s.shuttingDown = true
  parked : s.parkedWorkers = []
  awaited : s.shutdownReply = none ∨ s.shutdownReply = some reply
  limit : s.shutdownDeadline = none ∨ s.shutdownDeadline = some deadline

/-- The shutdown commands that an operation answers after the first one: a later one at once,
and the first one when no lease is left or the deadline has passed. -/
inductive Answers (reply : Sender) (deadline : Instant) (env : Env) (op : Op)
    (s s' : Coordinator) : Prop
  | none (h : s'.doneReplies = s.doneReplies)
  | again {reply' : Sender} (hop : op = .handle (.shutdown reply'))
      (h : s'.doneReplies = s.doneReplies ++ [reply'])
  | first (hop : op = .checkExit) (hawaited : s.shutdownReply = some reply)
      (hwhen : s.leases.keys = [] ∨ deadline.nanos ≤ (env.instant s.tick).nanos)
      (h : s'.doneReplies = s.doneReplies ++ [reply])

variable {reply : Sender} {deadline : Instant} {op : Op}

theorem Draining.of_control (h : Draining reply deadline s) (hc : s'.control = s.control) :
    Draining reply deadline s' := by
  simp only [control, Control.mk.injEq] at hc
  obtain ⟨hdown, hdeadline, hreply, _, _, _, hparked⟩ := hc
  exact ⟨hdown.trans h.down, hparked.trans h.parked, hreply ▸ h.awaited, hdeadline ▸ h.limit⟩

theorem Answers.of_control (hc : s'.control = s.control) : Answers reply deadline env op s s' :=
  .none (congrArg Control.done hc)

theorem steers_cases (op : Op) :
    op.steers = false ∨ op = .checkExit ∨ ∃ reply, op = .handle (.shutdown reply) := by
  cases op with
  | handle cmd => cases cmd <;> simp [Op.steers]
  | _ => simp [Op.steers]

theorem Draining.exec (h : Draining reply deadline s)
    (hexec : exec X config env op s = .ok () s') :
    Draining reply deadline s' ∧ Answers reply deadline env op s s' := by
  rcases steers_cases op with hop | rfl | ⟨reply', rfl⟩
  · have hc := exec_control hop h.down hexec
    exact ⟨h.of_control hc, .of_control hc⟩
  · rcases exec_checkExit hexec with hc | ⟨hmay, hc⟩
    · exact ⟨h.of_control hc, .of_control hc⟩
    · simp only [control, Control.mk.injEq] at hc
      obtain ⟨hdown, hdeadline, hreply, _, hdone, _, hparked⟩ := hc
      refine ⟨⟨hdown.trans h.down, hparked.trans h.parked, .inl hreply, hdeadline ▸ h.limit⟩, ?_⟩
      rcases h.awaited with hnone | hsome
      · exact .none (by rw [hdone, hnone, Option.toList_none, List.append_nil])
      · refine .first rfl hsome ?_ (by rw [hdone, hsome, Option.toList_some])
        rcases hmay with hempty | ⟨d, hd, hlate⟩
        · exact .inl hempty
        · rcases h.limit with hu | hu <;> rw [hd] at hu <;> cases hu
          exact .inr hlate
  · obtain rfl := exec_shutdown_again h.down hexec
    exact ⟨⟨h.down, h.parked, h.awaited, h.limit⟩, .again rfl (doneReplies_send_done reply' s)⟩

theorem Draining.run (h : Draining reply deadline s) (hrun : Run X P config s s') :
    Draining reply deadline s' := by
  induction hrun with
  | refl => exact h
  | tail _ hstep ih =>
    cases hstep with
    | acquire | abandon => exact ih.of_control rfl
    | exec _ hexec => exact (ih.exec hexec).1

/-- While it shuts down, a process logs neither a submission nor a lease and leases no job. -/
theorem Draining.run_winds (h : Draining reply deadline s) (hs : Placement config s)
    (hrun : Run X P config s s') : OnlyLogs WalRecord.Winds s s' ∧ LeasesShrink s s' := by
  induction hrun with
  | refl => exact ⟨.refl s, fun _ _ h => h⟩
  | tail hrun hstep ih =>
    cases hstep with
    | acquire | abandon => exact ih
    | exec henabled hexec =>
      have hplacement := Steps.placement (steps_of_run hrun hs) hs
      obtain ⟨hlogs, hshrink⟩ := StepsOf.winds (wp_ok (exec_logs (X := X) hplacement henabled)
        hexec).1 (h.run hrun).down
      exact ⟨ih.1.trans hlogs, fun id l hl => ih.2 id l (hshrink id l hl)⟩

theorem Started.idle (h : Started X config s₀) : Idle s₀ := by
  cases h <;> exact fun _ => ⟨rfl, rfl, rfl⟩

theorem Idle.run (h : Idle s) (hrun : Run X P config s s') : Idle s' := by
  induction hrun with
  | refl => exact h
  | tail _ hstep ih =>
    cases hstep with
    | acquire | abandon => exact ih
    | @exec op env _ _ hexec =>
      rcases steers_cases op with hop | rfl | ⟨reply, rfl⟩
      · have hphase := (exec_phase hop).ok hexec
        simp only [phase, control, Control.mk.injEq] at hphase
        obtain ⟨hdown, hdeadline, hreply, htoken, _⟩ := hphase
        rw [Idle, hdown, hdeadline, hreply, htoken]
        exact ih
      · rcases exec_checkExit hexec with hc | ⟨_, hc⟩ <;>
          simp only [control, Control.mk.injEq] at hc
        · rw [Idle, hc.1, hc.2.1, hc.2.2.1, hc.2.2.2.1]
          exact ih
        · rw [Idle, hc.1, hc.2.1, hc.2.2.1, hc.2.2.2.1]
          exact fun hup => ⟨rfl, (ih hup).2⟩
      · intro hup
        exfalso
        rename_i t t' _ _
        cases hdown : t.shuttingDown with
        | true =>
          rw [exec_shutdown_again hdown hexec] at hup
          cases hdown.symm.trans hup
        | false =>
          have hc := congrArg Control.shuttingDown (exec_shutdown_first hdown hexec)
          rw [apply_ite Control.shuttingDown, ite_self] at hc
          cases hc.symm.trans hup

theorem Idle.exec_shutdown (h : Idle s) (hup : s.shuttingDown = false)
    (hexec : exec X config env (.handle (.shutdown reply)) s = .ok () s') :
    Draining reply ((env.instant s.tick).add config.shutdownTimeout) s' ∧
      s'.doneReplies = if s.leases.keys = [] then s.doneReplies ++ [reply] else s.doneReplies := by
  have hc := exec_shutdown_first hup hexec
  split at hc <;> rename_i hleases <;> simp only [control, Control.mk.injEq] at hc
  · obtain ⟨hdown, hdeadline, hreply, _, hdone, _, hparked⟩ := hc
    rw [(h hup).1] at hreply
    rw [(h hup).2.1] at hdeadline
    exact ⟨⟨hdown, hparked, .inl hreply, .inl hdeadline⟩, by rw [hdone, if_pos hleases]⟩
  · obtain ⟨hdown, hdeadline, hreply, _, hdone, _, hparked⟩ := hc
    exact ⟨⟨hdown, hparked, .inr hreply, .inr hdeadline⟩, by rw [hdone, if_neg hleases]⟩

/-- A shutdown quiesces.  Let the first shutdown command be handled in a state `u` of a run,
with `s` the state after it and `t` any later one.  No worker is parked in `t`.  From there on
only leases end: no submission and no lease is logged, tried or being appended at a crash,
nor logged by an operation that panics.
The first command is answered when it is handled if no job is leased then, and otherwise not
before no lease is left or the deadline has passed. -/
theorem shutdown_quiesces {u t : Coordinator} (hstart : Started X config s₀)
    (hbefore : Run X P config s₀ u) (hfirst : u.shuttingDown = false)
    (henabled : (Op.handle (.shutdown reply)).Enabled P env u)
    (hexec : exec X config env (.handle (.shutdown reply)) u = .ok () s)
    (hlater : Run X P config s t) :
    t.parkedWorkers = [] ∧
    (∀ t', Run X P config t t' → OnlyLogs WalRecord.Winds t t' ∧ LeasesShrink t t') ∧
    (s.doneReplies = if u.leases.keys = [] then u.doneReplies ++ [reply] else u.doneReplies) ∧
    ∀ op env', op.Enabled P env' t →
      (∀ t', exec X config env' op t = .ok () t' →
        Answers reply ((env.instant u.tick).add config.shutdownTimeout) env' op t t') ∧
      ∀ c t', exec X config env' op t = .error c t' → OnlyLogs WalRecord.Winds t t' ∧
        ∀ r file, c = .append r file → r.Winds := by
  obtain ⟨hdraining, hdone⟩ := (hstart.idle.run hbefore).exec_shutdown hfirst hexec
  have hdraining' := hdraining.run hlater
  have hplacement := hstart.run_placement ((hbefore.tail (.exec henabled hexec)).trans hlater)
  refine ⟨hdraining'.parked, fun t' hrun => hdraining'.run_winds hplacement hrun, hdone, ?_⟩
  intro op env' henabled'
  refine ⟨fun t' hexec' => (hdraining'.exec hexec').2, fun c t' hexec' => ?_⟩
  have hwinds : ∀ s r, op.Persists t s r → r.Winds := fun _ _ hr => hr.winds hdraining'.down
  exact exec_cut hplacement henabled' hwinds hexec'

def mailStopping : Coordinator :=
  after Postcard.crates mailConfig (mailEnv ⟨2⟩ .none) (.handle (.shutdown 7)) mailLeased

def mailFinished : Coordinator :=
  after Postcard.crates mailConfig (mailEnv ⟨2⟩ .none)
    (.handle (.workerOutcome ⟨1⟩ ⟨1⟩ .success)) mailStopping

/-- A shutdown that comes while the job is leased is answered when the job is done, not before. -/
theorem shutdown_quiesces_mail :
    mailStopping.doneReplies = [] ∧ mailFinished.parkedWorkers = [] ∧
      LeasesShrink mailStopping mailFinished ∧ mailFinished.leases.keys = [] ∧
      (after Postcard.crates mailConfig (mailEnv ⟨2⟩ .none) .checkExit mailFinished).doneReplies =
        [7] := by
  have henabled : (Op.handle (.shutdown 7)).Enabled (· = .none) (mailEnv ⟨2⟩ .none) mailLeased :=
    ⟨rfl, trivial, fun _ => rfl, fun _ => rfl⟩
  have hfinish : Run Postcard.crates (· = .none) mailConfig mailStopping mailFinished := by
    have henabled' : (Op.handle (.workerOutcome ⟨1⟩ ⟨1⟩ .success)).Enabled (· = .none)
        (mailEnv ⟨2⟩ .none) mailStopping := ⟨rfl, trivial, fun _ => rfl, fun _ => rfl⟩
    exact .single (.exec henabled' rfl)
  have hstopping := shutdown_quiesces (.fresh mailBoot _ _) (mailLeased_run (· = .none) rfl) rfl
    henabled rfl .refl
  have hfinished := shutdown_quiesces (.fresh mailBoot _ _) (mailLeased_run (· = .none) rfl) rfl
    henabled rfl hfinish
  refine ⟨hstopping.2.2.1.trans (by decide +kernel), hfinished.1, (hstopping.2.1 _ hfinish).2,
    by decide +kernel, by decide +kernel⟩

end Coordinator

end DurableQueue
