import DurableQueue.Defs.Attempts
import DurableQueue.Defs.Loop

/-! Left alone, the loop comes to rest: every wake-up of its timer uses up some of a
potential that nothing but a command renews. -/

namespace DurableQueue

def JobRecord.attemptsLeft (job : JobRecord) : Nat :=
  if job.state.isTerminal then 0 else max 1 job.spec.maxAttempts.toNat - job.attempts.toNat

theorem JobRecord.attemptsLeft_of_live {job : JobRecord} (h : job.state.isTerminal = false) :
    job.attemptsLeft = max 1 job.spec.maxAttempts.toNat - job.attempts.toNat := by
  simp [attemptsLeft, h]

theorem MemoryStore.sum_apply {store : MemoryStore} {r : WalRecord} {job : JobRecord}
    (hr : r.isSubmitted = false) (hjob : store.get r.jobId = some job) (f : JobRecord → Nat) :
    ((store.applyRecordForRecovery r).values.map f).sum + f job =
      (store.values.map f).sum + f (r.update job) := by
  cases r with
  | jobSubmitted => cases hr
  | jobLeased | jobRetryScheduled | jobCompleted | jobDead | jobCancelled =>
    exact HashMap.sum_values_modify hjob _ f

namespace Coordinator

variable {X : Crates} {P : Fault → Prop} {config : RuntimeConfig} {clock : Nat → Instant}
  {A : Coordinator → WalRecord → Prop} {s₀ s s' s'' : Coordinator}

/-- An attempt that is left becomes a lease, and a lease becomes a retry. -/
def potential (s : Coordinator) : Nat :=
  3 * (s.store.values.map JobRecord.attemptsLeft).sum + 2 * s.leases.count (fun _ => true) +
    s.retryQueue.length

inductive Drops (s s' : Coordinator) : Prop
  | paid (h : s'.potential < s.potential)
  | still (h : s'.potential ≤ s.potential) (hretries : s'.retryQueue = s.retryQueue)
      (hleases : ∀ id, s'.leases.get id = s.leases.get id)

namespace Drops

theorem refl (s : Coordinator) : Drops s s := .still le_rfl rfl fun _ => rfl

theorem le (h : Drops s s') : s'.potential ≤ s.potential := by
  cases h with
  | paid h => exact h.le
  | still h => exact h

theorem trans (h : Drops s s') (h' : Drops s' s'') : Drops s s'' := by
  cases h with
  | paid h => exact .paid (h'.le.trans_lt h)
  | still h hretries hleases =>
    cases h' with
    | paid h' => exact .paid (h'.trans_le h)
    | still h' hretries' hleases' =>
      exact .still (h'.trans h) (hretries'.trans hretries) fun id =>
        (hleases' id).trans (hleases id)

theorem of_store (hstore : (s'.store.values.map JobRecord.attemptsLeft).sum ≤
      (s.store.values.map JobRecord.attemptsLeft).sum)
    (hretries : s'.retryQueue = s.retryQueue) (hleases : s'.leases = s.leases) : Drops s s' := by
  refine .still ?_ hretries fun id => by rw [hleases]
  rw [potential, potential, hleases, hretries]
  omega

theorem of_same (hstore : s'.store = s.store) (hleases : s'.leases = s.leases)
    (hretries : s'.retryQueue = s.retryQueue) : Drops s s' :=
  .of_store (by rw [hstore]) hretries hleases

end Drops

/-! ## One step -/

def HasAttempts (s : Coordinator) : Prop :=
  ∀ id job, s.store.get id = some job → job.state = .queued →
    job.attempts.toNat < max 1 job.spec.maxAttempts.toNat

theorem Sound.hasAttempts {base : List WalRecord} {past : List LeaseId}
    (h : Sound X config base past s₀ s) : HasAttempts s :=
  fun _ _ hjob hstate => (h.tried hjob).left (Or.inl hstate)

theorem count_removeLease {id : JobId} {lease : ActiveLease} (h : s.leases.get id = some lease) :
    (s.leases.erase id).count (fun _ => true) + 1 = s.leases.count (fun _ => true) := by
  simpa using HashMap.count_erase (fun _ => true) s.leases id lease h

theorem potential_of_ended {id : JobId} {lease : ActiveLease}
    (hlease : s.leases.get id = some lease) (hleases : s'.leases = s.leases.erase id)
    (hstore : (s'.store.values.map JobRecord.attemptsLeft).sum ≤
      (s.store.values.map JobRecord.attemptsLeft).sum)
    (hretries : s'.retryQueue.length ≤ s.retryQueue.length + 1) : Drops s s' := by
  have hcount := count_removeLease hlease
  refine .paid ?_
  rw [potential, potential, hleases]
  omega

theorem sum_attemptsLeft_le {r : WalRecord} {job : JobRecord} (hr : r.isSubmitted = false)
    (hjob : s.store.get r.jobId = some job)
    (hle : (r.update job).attemptsLeft ≤ job.attemptsLeft) :
    ((s.store.applyRecordForRecovery r).values.map JobRecord.attemptsLeft).sum ≤
      (s.store.values.map JobRecord.attemptsLeft).sum := by
  have hsum := MemoryStore.sum_apply hr hjob JobRecord.attemptsLeft
  omega

theorem attemptsLeft_terminal {r : WalRecord} (h : r.dst.isTerminal) (job : JobRecord) :
    (r.update job).attemptsLeft = 0 := by
  simp [JobRecord.attemptsLeft, h]

theorem Offers.drops_ack {r : WalRecord} {pre : Coordinator} {expose : Coordinator → Coordinator}
    (h : Offers s r pre expose) (hr : r.isSubmitted = false) (hs : Placement config s)
    (hleft : HasAttempts s) (st : Storage) (t : Nat) : Drops s (expose (pre.commit r st t)) := by
  have hstore := h.store_ack st t
  cases h with
  | submit => cases hr
  | @cancel id job cancelledAt hjob hlive =>
    let r : WalRecord := .jobCancelled id cancelledAt
    let s' := exposeCancel id job.queue.asStr job.state (s.commit r st t)
    have hsum : (s'.store.values.map JobRecord.attemptsLeft).sum ≤
        (s.store.values.map JobRecord.attemptsLeft).sum := by
      rw [show s'.store = _ from hstore]
      refine sum_attemptsLeft_le hr hjob ?_
      rw [attemptsLeft_terminal rfl]
      exact Nat.zero_le _
    have hretries : s'.retryQueue = s.retryQueue := by
      simp only [s', exposeCancel_eq]
      rfl
    have hleases : s'.leases = s.leases ∨ s'.leases = s.leases.erase id := by
      simp only [s', exposeCancel_eq]
      split
      · exact Or.inr rfl
      · exact Or.inl rfl
    rcases hleases with hleases | hleases
    · exact .of_store hsum hretries hleases
    · cases hlease : s.leases.get id with
      | none => exact .of_store hsum hretries (hleases.trans (HashMap.erase_of_none hlease))
      | some lease => exact potential_of_ended hlease hleases hsum (hretries ▸ Nat.le_succ _)
  | @lease id job queue qs leasedAt deadline hqueue hfront hjob hstate =>
    have hnone : s.leases.get id = none :=
      hs.not_leased (MemoryStore.place_of_get hjob) (by rw [hstate]; simp)
    have hlt := hleft id job hjob hstate
    let r : WalRecord := .jobLeased id ⟨s.nextLeaseEpoch⟩ (job.attempts + 1) leasedAt
    have hsum := MemoryStore.sum_apply (r := r) hr hjob JobRecord.attemptsLeft
    rw [JobRecord.attemptsLeft_of_live (show job.state.isTerminal = false by rw [hstate]; rfl),
      JobRecord.attemptsLeft_of_live (show (r.update job).state.isTerminal = false from rfl),
      show (r.update job).spec = job.spec from rfl,
      show (r.update job).attempts.toNat = _ from JobRecord.attempts_succ hlt] at hsum
    have hcount := HashMap.count_insert_new (fun _ => true) s.leases id
      ⟨⟨s.nextLeaseEpoch⟩, deadline⟩ hnone
    rw [if_pos rfl] at hcount
    refine .paid ?_
    change 3 * ((s.store.applyRecordForRecovery r).values.map _).sum +
      2 * (s.leases.insert id _).count _ + s.retryQueue.length < s.potential
    rw [hcount, potential]
    omega
  | complete hlease hjob | die hlease hjob =>
    refine potential_of_ended hlease rfl ?_ (Nat.le_succ _)
    rw [hstore]
    refine sum_attemptsLeft_le hr hjob ?_
    rw [attemptsLeft_terminal rfl]
    exact Nat.zero_le _
  | retry hlease hjob hstate =>
    refine potential_of_ended hlease rfl ?_ le_rfl
    rw [hstore]
    refine sum_attemptsLeft_le hr hjob ?_
    rw [JobRecord.attemptsLeft_of_live rfl,
      JobRecord.attemptsLeft_of_live (show _ = false by rw [hstate]; rfl)]
    exact le_rfl

theorem removeLease_drops (id : JobId) (hleases : s'.leases = s.leases.erase id)
    (hstore : s'.store = s.store) (hretries : s'.retryQueue = s.retryQueue) : Drops s s' := by
  cases hlease : s.leases.get id with
  | none => exact .of_same hstore (hleases.trans (HashMap.erase_of_none hlease)) hretries
  | some lease =>
    exact potential_of_ended hlease hleases (by rw [hstore]) (hretries ▸ Nat.le_succ _)

theorem Offers.drops_nack {r : WalRecord} {pre : Coordinator}
    {expose : Coordinator → Coordinator} (h : Offers s r pre expose) (e : WalError) (st : Storage)
    (t : Nat) : Drops s (pre.refuse r e st t) := by
  cases h with
  | submit | cancel | lease => exact .of_same rfl rfl rfl
  | @complete id | @die id | @retry id => exact removeLease_drops id rfl rfl rfl

theorem forceShutdown_drops (s : Coordinator) : Drops s s.forceShutdown.exit := by
  have hcancel : ∀ (ids : List JobId) (s : Coordinator),
      Drops s (ids.foldl (fun s id => s.cancelLease id) s) := by
    intro ids
    induction ids with
    | nil => exact .refl
    | cons id ids ih =>
      intro s
      have hfirst : Drops s (s.cancelLease id) := removeLease_drops id rfl rfl rfl
      exact hfirst.trans (ih _)
  exact (hcancel s.leases.keys s).trans (.of_same rfl rfl rfl)

theorem requeue_drops {entry : RetryEntry} {job : JobRecord} (hentry : entry ∈ s.retryQueue)
    (hjob : s.store.get entry.jobId = some job) (hstate : job.state = .retryWaiting) :
    Drops s (requeued entry job s) := by
  have hsum := HashMap.sum_values_modify hjob (fun _ => { job with state := .queued })
    JobRecord.attemptsLeft
  have hstore : s.store.modify entry.jobId (fun _ => { job with state := .queued }) =
      s.store.insert entry.jobId { job with state := .queued } := by
    simp only [HashMap.modify, hjob]
  rw [hstore, JobRecord.attemptsLeft_of_live (show job.state.isTerminal = false by
    rw [hstate]; rfl), JobRecord.attemptsLeft_of_live rfl] at hsum
  dsimp only at hsum
  have hlength := List.length_erase_of_mem hentry
  have hpos := List.length_pos_of_mem hentry
  refine .paid ?_
  change 3 * ((s.store.insert entry.jobId _).values.map _).sum + 2 * s.leases.count _ +
    (s.retryQueue.erase entry).length < s.potential
  rw [hlength, potential]
  omega

/-- No step but a submission raises the potential. -/
theorem Step.drops (h : Step X P s s') (hs : Placement config s) (hleft : HasAttempts s)
    (hsub : ∀ r, s'.acked = s.acked ++ [r] → r.isSubmitted = false) : Drops s s' := by
  cases h with
  | quiet h => exact .of_same h.store h.leases h.retryQueue
  | ack h _ _ tick => exact h.drops_ack (hsub _ (h.acked_ack _ tick)) hs hleft _ tick
  | nack h _ _ tick => exact h.drops_nack _ _ tick
  | requeue hentry hjob hstate => exact requeue_drops hentry hjob hstate
  | dropEntry hentry _ =>
    have hlength := List.length_erase_of_mem hentry
    have hpos := List.length_pos_of_mem hentry
    refine .paid ?_
    simp only [potential, hlength]
    omega
  | acquire | returnPermit => exact .of_same rfl rfl rfl
  | forceShutdown => exact forceShutdown_drops s

theorem StepsOf.drops {base : List WalRecord} {past : List LeaseId}
    (h : StepsOf X Fault.Clean A s s') (hA : ∀ s r, A s r → r.isSubmitted = false)
    (hs : Sound X config base past s₀ s) : Drops s s' := by
  induction h with
  | refl => exact .refl s
  | tail hsteps hstep ih =>
    have hs₁ := hs.steps (StepsOf.steps hsteps)
    exact ih.trans (hstep.step.drops hs₁.placement hs₁.hasAttempts fun r hr =>
      hA _ r (hstep.allowed r (Or.inl hr)))

/-! ## The loop -/

def LoopEvent.isUndisturbed : LoopEvent → Bool
  | .turn (.handle _) => false
  | _ => true

def LoopEvent.isWake : LoopEvent → Bool
  | .wake => true
  | _ => false

theorem exec_drops {base : List WalRecord} {past : List LeaseId} {env : Env} {op : Op}
    (hop : (LoopEvent.turn op).isUndisturbed) (hs : Sound X config base past s₀ s)
    (henabled : op.Enabled Fault.Clean env s) (hexec : exec X config env op s = .ok () s') :
    Drops s s' := by
  refine StepsOf.drops (wp_ok (exec_logs hs.placement henabled) hexec).1 (fun s₁ r hr => ?_) hs
  cases hr <;> first | rfl | cases hop

def Overdue (clock : Nat → Instant) (s : Coordinator) : Point → Prop
  | .retries => ∃ timer d, Armed s timer d ∧ d.nanos ≤ (clock s.tick).nanos
  | .timeouts _ => ∃ timer d, Armed s timer d ∧ (∀ id wall, timer ≠ .retry id wall) ∧
      d.nanos ≤ (clock s.tick).nanos
  | .dispatch .. | .exitCheck .. =>
    ∃ d, s.shutdownDeadline = some d ∧ d.nanos ≤ (clock s.tick).nanos
  | .select .. => False

def Owes (clock : Nat → Instant) (l : Point × Coordinator) : Prop :=
  l.2.exited = true ∨ Overdue clock l.2 l.1

theorem Owes.turn (hclock : Monotone fun t => (clock t).nanos) {base : List WalRecord}
    {past : List LeaseId} (hs : Sound X config base past s₀ s) {p p' : Point} {op : Op}
    {env : Env} (henv : env.instant = clock) (hnext : p.next s.tick op = some p')
    (hop : (LoopEvent.turn op).isUndisturbed) (henabled : op.Enabled Fault.Clean env s)
    (hexec : exec X config env op s = .ok () s') (h : Owes clock (p, s)) :
    s'.potential < s.potential ∨ Owes clock (p', s') := by
  subst henv
  have hdrops := exec_drops hop hs henabled hexec
  have h : Overdue env.instant s p := h.resolve_left (by simp [henabled.running])
  have hlater : ∀ {d : Instant}, s.tick ≤ s'.tick → d.nanos ≤ (env.instant s.tick).nanos →
      d.nanos ≤ (env.instant s'.tick).nanos := fun htick hdue => hdue.trans (hclock htick)
  cases p with
  | retries =>
    cases op with
    | processDueRetries =>
      cases hnext
      obtain ⟨timer, d, harmed, hdue⟩ := h
      obtain ⟨due, hrequeues⟩ := wp_ok (processDueRetries_requeues hs.placement) hexec
      have hacts : Acts config env.instant (fun _ => False) s s' :=
        (wp_ok processDueRetries_acts hexec).1
      have htick := hacts.sets.tick
      obtain ⟨store, queues, retryQueue, tick, rfl⟩ := hrequeues.frame
      cases timer with
      | retry =>
        obtain ⟨e, he, rfl⟩ := harmed.retry_inv
        cases hdrops with
        | paid h => exact Or.inl h
        | still _ hretries _ =>
          -- the entry has left the heap
          rw [← hretries, hrequeues.heap] at he
          have hlate := (List.mem_filter.mp he).2
          simp only [decide_eq_true_eq] at hlate
          exact absurd hdue (Nat.not_le.mpr hlate)
      | lease =>
        obtain ⟨l, hl, rfl⟩ := harmed.lease_inv
        exact Or.inr (Or.inr ⟨_, _, .lease hl, fun _ _ heq => (nomatch heq), hlater htick hdue⟩)
      | shutdown =>
        cases harmed with
        | shutdown hd =>
          exact Or.inr (Or.inr ⟨_, _, .shutdown hd, fun _ _ heq => (nomatch heq),
            hlater htick hdue⟩)
    | _ => cases hnext
  | timeouts t₁ =>
    cases op with
    | checkLeaseTimeouts =>
      cases hnext
      obtain ⟨timer, d, harmed, hkind, hdue⟩ := h
      obtain ⟨order, hexpires⟩ := wp_ok (checkLeaseTimeouts_expires hs.placement) hexec
      cases timer with
      | retry id wall => exact absurd rfl (hkind id wall)
      | lease id =>
        obtain ⟨l, hl, rfl⟩ := harmed.lease_inv
        cases hdrops with
        | paid h => exact Or.inl h
        | still _ _ hleases =>
          -- the lease has been ended
          have hgone := hexpires.leases id
          rw [if_pos (mem_expiredIds.mpr ⟨l, hl, hdue⟩), hleases, hl] at hgone
          cases hgone
      | shutdown =>
        cases harmed with
        | shutdown hd =>
          have hsame : s'.shutdownDeadline = s.shutdownDeadline :=
            congrArg (fun c => c.1.deadline) (checkLeaseTimeouts_keeps.ok hexec)
          exact Or.inr (Or.inr ⟨d, hsame.trans hd, hlater hexpires.tick hdue⟩)
    | _ => cases hnext
  | dispatch t₁ t₂ =>
    cases op with
    | tryDispatchParkedWorkers =>
      cases hnext
      obtain ⟨d, hd, hdue⟩ := h
      have hacts : Acts config env.instant (.grant = ·) s s' :=
        (wp_ok (tryDispatchParkedWorkers_acts rfl) hexec).1
      have htick := hacts.sets.tick
      have hsame : s'.shutdownDeadline = s.shutdownDeadline :=
        congrArg Control.deadline (tryDispatchParkedWorkers_phase.ok hexec)
      exact Or.inr (Or.inr ⟨d, hsame.trans hd, hlater htick hdue⟩)
    | _ => cases hnext
  | exitCheck t₁ t₂ =>
    cases op with
    | checkExit =>
      cases hnext
      obtain ⟨d, hd, hdue⟩ := h
      refine Or.inr (Or.inl ?_)
      by_contra hloop
      rw [Bool.not_eq_true] at hloop
      exact absurd hdue (Nat.not_le.mpr ((wp_ok checkExit_before hexec hloop).2 d hd))
    | _ => cases hnext
  | select t₁ t₂ => exact h.elim

theorem Overdue.of_same {p : Point} (h : Overdue clock s p) (hleases : s'.leases = s.leases)
    (hretries : s'.retryQueue = s.retryQueue)
    (hshutdown : s'.shutdownDeadline = s.shutdownDeadline) (htick : s'.tick = s.tick) :
    Overdue clock s' p := by
  have harmed : ∀ timer d, Armed s timer d → Armed s' timer d := fun _ _ hd =>
    hd.of_same hleases.symm hretries.symm hshutdown.symm
  cases p with
  | retries | timeouts =>
    obtain ⟨timer, d, hd, hdue⟩ := h
    exact ⟨timer, d, harmed timer d hd, by rwa [htick]⟩
  | dispatch | exitCheck =>
    obtain ⟨d, hd, hdue⟩ := h
    exact ⟨d, hshutdown.trans hd, by rwa [htick]⟩
  | select => exact h

/-- Left alone, the loop of a process wakes up a bounded number of times: at most once more
than what is left of its jobs' attempts, leases and retries adds up to.  After that it sleeps
until a command comes, or has ended. -/
theorem wakeups_bounded (hX : X.Lawful) (hC : X.Compact) {past : List Event}
    (hreach : Reachable X Fault.Clean config (.up past s₀ s))
    (hclock : Monotone fun t => (clock t).nanos) {p p' : Point} {evs : List LoopEvent}
    (h : Trace (LoopStep X Fault.Clean config clock) (p, s) evs (p', s'))
    (halone : ∀ cmd, LoopEvent.turn (.handle cmd) ∉ evs) :
    evs.countP LoopEvent.isWake ≤ s.potential + 1 := by
  obtain ⟨base, _, hsound, _⟩ := Reachable.atLog hX hC hreach
  have hall : ∀ ev ∈ evs, ev.isUndisturbed := by
    intro ev hev
    cases ev with
    | client | wake => rfl
    | turn op =>
      cases op with
      | handle cmd => exact absurd hev (halone cmd)
      | _ => rfl
  refine (h.restrict hall).countP_le
    (fun l => Sound X config base (past.filterMap Event.asEnded) s₀ l.2) (Owes clock)
    (fun l => l.2.potential) ?_ ?_ ?_ ?_ hsound
  · rintro l ev l' hs ⟨hstep, _⟩
    exact hs.steps (steps_of_run hstep.run hs.placement)
  · rintro _ _ _ hs ⟨hstep, hev⟩
    cases hstep with
    | acquire | abandon | wake => exact le_rfl
    | turn _ _ henabled hexec => exact (exec_drops hev hs henabled hexec).le
  · rintro _ _ _ _ ⟨hstep, _⟩ hwake
    cases hstep with
    | acquire | abandon | turn => cases hwake
    | @wake _ _ s d hloop hdeadline hdue =>
      have hearliest := nextDeadline_earliest s
      rw [hdeadline] at hearliest
      obtain ⟨⟨timer, harmed⟩, _⟩ := hearliest
      refine ⟨?_, Or.inr ⟨timer, d, harmed, hdue⟩⟩
      rintro (hexited | howes)
      · rw [hloop] at hexited
        cases hexited
      · exact howes
  · rintro _ _ _ hs ⟨hstep, hev⟩ howes
    cases hstep with
    | acquire | abandon => exact Or.inr (howes.imp_right fun h => h.of_same rfl rfl rfl rfl)
    | turn henv hnext henabled hexec => exact howes.turn hclock hs henv hnext hev henabled hexec
    | wake hloop =>
      rcases howes with hexited | howes
      · rw [hloop] at hexited
        cases hexited
      · exact howes.elim

/-- A job with two attempts left waits for its retry: seven units, and one wake-up of the
loop a second later. -/
theorem wakeups_bounded_mail : mailRetried.potential = 7 ∧ ∃ evs l',
    Trace (LoopStep Postcard.crates Fault.Clean mailConfig (fun _ => ⟨10 ^ 9⟩))
      (.select 0 0, mailRetried) evs l' ∧ evs.countP LoopEvent.isWake = 1 ∧
    evs.countP LoopEvent.isWake ≤ mailRetried.potential + 1 := by
  have hrun : Run Postcard.crates Fault.Clean mailConfig mailStart mailRetried :=
    (mailLeased_run _ trivial).tail (mailRetried_step _ trivial)
  have hwake : LoopStep Postcard.crates Fault.Clean mailConfig (fun _ => ⟨10 ^ 9⟩)
      (.select 0 0, mailRetried) .wake (.retries, mailRetried) :=
    .wake (d := ⟨10 ^ 8⟩) rfl (by decide +kernel) (by decide)
  refine ⟨by decide +kernel, [.wake], _, Trace.nil.snoc hwake, rfl, ?_⟩
  exact wakeups_bounded Postcard.crates_lawful Postcard.crates_compact
    ((mailStart_reachable Fault.Clean).run hrun) (fun _ _ _ => le_rfl) (Trace.nil.snoc hwake)
    (by simp)

end Coordinator

end DurableQueue
