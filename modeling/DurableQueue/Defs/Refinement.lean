import DurableQueue.Defs.SystemLaws

/-! A crash and a recovery bring back what memory held. -/

namespace DurableQueue

open Coordinator

variable {X : Crates} {config : RuntimeConfig} {env : RecoverEnv} {log : List WalRecord}
  {live : MemoryStore} {rec : RecoveredState}

theorem MemoryStore.UpToRequeue.replay {replayed : MemoryStore}
    (h : UpToRequeue live replayed) (rs : List WalRecord) :
    UpToRequeue (live.replay rs) (replayed.replay rs) := by
  induction rs generalizing live replayed with
  | nil => exact h
  | cons r rs ih => exact ih (h.apply r)

theorem lastRetry_append_of_none {recs : List WalRecord} {id : JobId}
    (h : ∀ r ∈ recs, r.jobId ≠ id) (log : List WalRecord) :
    lastRetry (log ++ recs) id = lastRetry log id := by
  induction recs using List.reverseRecOn with
  | nil => rw [List.append_nil]
  | append_singleton recs r ih =>
    rw [← List.append_assoc, lastRetry_snoc, WalRecord.retryFor_other (h r (by simp)).symm,
      Option.none_or]
    exact ih (fun r' hr' => h r' (by simp [hr']))

/-- What becomes of the state of a job; `leased` says whether it has ever been leased.  A
queued job that has been was put back by `process_due_retries`, which is not logged. -/
def JobRecord.recoveredState (job : JobRecord) (leased : Bool) : JobState :=
  match job.state with
  | .queued => if leased then .retryWaiting else .queued
  | .running => if job.attempts < job.spec.maxAttempts then .retryWaiting else .dead
  | state => state

theorem JobRecord.reconciled_eq (job : JobRecord) {leased : Bool}
    (h : job.state = .queued → leased = false) :
    job.reconciled = { job with state := job.recoveredState leased } := by
  obtain ⟨id, queue, spec, state, attempts, createdAt⟩ := job
  cases state with
  | queued => simp [reconciled, recoveredState, h rfl]
  | running | retryWaiting | completed | dead | cancelled => rfl

structure RecoversTo (log : List WalRecord) (live : MemoryStore) (rec : RecoveredState) :
    Prop where
  jobs : ∀ id, rec.store.get id = (live.get id).map fun job =>
    { job with state := job.recoveredState (lastLease log id).isSome }
  waiting : ∀ id job, live.get id = some job →
    job.state = .retryWaiting ∨ job.state = .queued ∧ (lastLease log id).isSome →
      ∃ t, lastRetry log id = some t ∧ (id, t) ∈ rec.retryJobs
  lists : ListsJobs rec.store rec.queuedJobs rec.retryJobs

theorem get_recovered (hlegal : Legal config log) (hstore : live.UpToRequeue (replayed log))
    (id : JobId) : ((replayed log).get id).map JobRecord.reconciled = (live.get id).map fun job =>
      { job with state := job.recoveredState (lastLease log id).isSome } := by
  have hhistory := hlegal.history
  cases hget : live.get id with
  | none =>
    rw [hstore.get_none.mp hget]
    rfl
  | some job =>
    rcases hstore.get_some hget with hr | ⟨hq, hr⟩
    · rw [hr, Option.map_some, Option.map_some, job.reconciled_eq]
      intro hstate
      rw [hhistory.queued id job hr hstate, Option.isSome_none]
    · have hleased := (hhistory.waiting id _ hr rfl).2
      rw [hr, Option.map_some, Option.map_some, hleased]
      simp [JobRecord.reconciled, JobRecord.recoveredState, hq]

theorem waits_in_log (hlegal : Legal config log) (hstore : live.UpToRequeue (replayed log))
    {id : JobId} {job : JobRecord} (hget : live.get id = some job)
    (hwaits : job.state = .retryWaiting ∨ job.state = .queued ∧ (lastLease log id).isSome) :
    ∃ job', (replayed log).get id = some job' ∧ job'.state = .retryWaiting := by
  rcases hstore.get_some hget with hr | ⟨_, hr⟩
  · rcases hwaits with hstate | ⟨hstate, hleased⟩
    · exact ⟨job, hr, hstate⟩
    · rw [hlegal.history.queued id job hr hstate] at hleased
      cases hleased
  · exact ⟨_, hr, rfl⟩

theorem Recovers.recoversTo (h : Recovers env config log rec) (hlegal : Legal config log)
    (hstore : live.UpToRequeue (replayed log)) : RecoversTo log live rec := by
  refine ⟨fun id => ?_, fun id job hget hwaits => ?_, h.lists⟩
  · rw [h.store, get_replay_reconciled, ← get_recovered hlegal hstore]
  · obtain ⟨job', hr, hstate⟩ := waits_in_log hlegal hstore hget hwaits
    -- the reconciliation is about running jobs, so the last retry of this one stands
    have hother : ∀ r ∈ reconciliationOf env log, r.jobId ≠ id := by
      rintro r hr' rfl
      obtain ⟨_, _, job'', _, hget'', hrun, _⟩ := reconciliationOf_reconciles env hlegal.nodup r hr'
      rw [hr] at hget''
      cases hget''
      rw [hstate] at hrun
      cases hrun
    have hget' : rec.store.get id = some job' := by
      rw [h.store, get_replay_reconciled, hr]
      simp [JobRecord.reconciled, hstate]
    have hplace := MemoryStore.place_of_get hget'
    rw [hstate] at hplace
    obtain ⟨⟨id', t⟩, hmem, rfl⟩ := List.mem_map.mp ((h.lists.retry id).mpr ⟨_, hplace⟩)
    have hlast := h.retry_last _ t hmem
    rw [lastRetry_append_of_none hother] at hlast
    exact ⟨t, hlast, hmem⟩

/-! ## Crashes -/

/-- The process dies in state `s` or in an append of an operation it performs there.  `live`
is its memory at that moment, `file` what it leaves behind, and `inFlight` the record that
was being appended. -/
inductive CrashesIn (X : Crates) (config : RuntimeConfig) (s : Coordinator) :
    (live : Coordinator) → (file : List UInt8) → (inFlight : List WalRecord) → Prop
  | idle : CrashesIn X config s s s.logFile []
  | append {op : Op} {env : Env} {record : WalRecord} {file : List UInt8} {live : Coordinator}
      (henabled : op.Enabled Fault.Clean env s)
      (h : exec X config env op s = .error (.append record file) live) :
      CrashesIn X config s live file [record]

structure CountsOn (live : Coordinator) (recs : List WalRecord) (rec : RecoveredState) : Prop where
  submitted : rec.submitted = live.globalStats.submitted + recs.countP (·.isSubmitted)
  completed : rec.completed = live.globalStats.completed + recs.countP (·.isCompleted)
  dead : rec.dead = live.globalStats.dead + recs.countP (·.isDead)
  cancelled : rec.cancelled = live.globalStats.cancelled + recs.countP (·.isCancelled)
  retried : rec.retried = live.globalStats.retried + recs.countP (·.isRetryScheduled)
  nextLeaseEpoch : rec.nextLeaseEpoch.toNat =
    live.nextLeaseEpoch.toNat + recs.countP (·.leasedEpoch.isSome)

theorem Legal.maxEpoch_eq (h : Legal config log) :
    (maxEpoch log).toNat = log.countP (·.leasedEpoch.isSome) := by
  induction h with
  | nil => rfl
  | snoc h hr ih => rw [hr.maxEpoch_snoc, ih, List.countP_append, List.countP_singleton]

theorem Recovers.countsOn {live : Coordinator} {landed : List WalRecord}
    (h : Recovers env config (log ++ landed) rec) (hlegal : Legal config (log ++ landed))
    (hcounts : live.globalStats.Counts log)
    (hepoch : live.nextLeaseEpoch.toNat = (maxEpoch log).toNat + 1) :
    CountsOn live (landed ++ reconciliationOf env (log ++ landed)) rec := by
  obtain ⟨h₁, h₂, h₃, h₄, h₅⟩ := h.counted
  have hlog := (hlegal.initialSegment (List.prefix_append _ _)).maxEpoch_eq
  have hall := (hlegal.recovered_all env).maxEpoch_eq
  rw [maxEpoch_reconciled env hlegal.nodup] at hall
  simp only [List.append_assoc, List.countP_append] at h₁ h₂ h₃ h₄ h₅ hall
  constructor
  · rw [h₁, hcounts.submitted, List.countP_append]
  · rw [h₂, hcounts.completed, List.countP_append]
  · rw [h₃, hcounts.dead, List.countP_append]
  · rw [h₄, hcounts.cancelled, List.countP_append]
  · rw [h₅, hcounts.retried, List.countP_append]
  · rw [h.nextLeaseEpoch, hepoch, List.countP_append]
    omega

theorem recover_crashed (hX : X.Lawful) (hC : X.Compact) {w : WriterThread} {torn : List UInt8}
    {live : Coordinator} {landed : List WalRecord} (hlegal : Legal config (log ++ landed))
    (hholds : WriterThread.Holds X w (log ++ landed) torn)
    (hstore : live.store.UpToRequeue (replayed log)) (hcounts : live.globalStats.Counts log)
    (hepoch : live.nextLeaseEpoch.toNat = (maxEpoch log).toNat + 1) (env : RecoverEnv)
    (hio : ∀ msg, (recover X env config (some w.file)).1 ≠ .error (.io msg)) :
    ∃ rec, (recover X env config (some w.file)).1 = .ok rec ∧
      RecoversTo (log ++ landed) (live.store.replay landed) rec ∧
      CountsOn live (landed ++ reconciliationOf env (log ++ landed)) rec ∧
      ∀ r ∈ log ++ landed, ∀ e, r.leasedEpoch = some e → e.toNat < rec.nextLeaseEpoch.toNat := by
  rcases recover_holds hX hC hlegal hholds env with ⟨rec, file', hrec, h, _⟩ | ⟨_, _, _, hrec, _⟩
  · rw [hrec]
    refine ⟨rec, rfl, h.recoversTo hlegal ?_, h.countsOn hlegal hcounts hepoch, ?_⟩
    · rw [replayed, MemoryStore.replay_append]
      exact hstore.replay landed
    · intro r hr e he
      rw [h.nextLeaseEpoch]
      exact Nat.lt_succ_of_le (leasedEpoch_le hr he)
  · rw [hrec] at hio
    exact absurd rfl (hio _)

/-- Recovery after a crash, at any point of any run over any number of restarts, refines
memory at the crash: the recovered jobs are those of memory, with the record that was being
appended if it has reached the file; the counters have gone on by that record and by the
reconciliation records; and the next lease epoch is beyond every epoch in the log. -/
theorem recover_refines (hX : X.Lawful) (hC : X.Compact) {past : List Event}
    {s₀ s live : Coordinator} (h : Reachable X Fault.Clean config (.up past s₀ s))
    {file : List UInt8} {inFlight : List WalRecord}
    (hcrash : CrashesIn X config s live file inFlight) (env : RecoverEnv)
    (hio : ∀ msg, (recover X env config (some file)).1 ≠ .error (.io msg)) :
    ∃ rec landed, (recover X env config (some file)).1 = .ok rec ∧
      (landed = [] ∨ landed = inFlight) ∧
      logOf X (some file) = logOf X (some live.logFile) ++ landed ∧
      RecoversTo (logOf X (some file)) (live.store.replay landed) rec ∧
      CountsOn live (landed ++ reconciliationOf env (logOf X (some file))) rec ∧
      ∀ r ∈ logOf X (some file), ∀ e, r.leasedEpoch = some e →
        e.toNat < rec.nextLeaseEpoch.toNat := by
  obtain ⟨base, _, hsound, _⟩ := h.atLog hX hC
  cases hcrash with
  | idle =>
    have hlog := hsound.logged
    obtain ⟨w, hw, hholds⟩ := hlog.holds
    have hfile : s.logFile = w.file := by rw [logFile, hw]
    rw [hfile] at hio ⊢
    rw [← List.append_nil (base ++ s.acked)] at hholds
    obtain ⟨rec, hrec⟩ := recover_crashed hX hC ((List.append_nil _).symm ▸ hlog.legal) hholds
      hlog.store hlog.counted hlog.epoch env hio
    rw [logOf_holds hX hholds]
    exact ⟨rec, [], hrec.1, Or.inl rfl, (List.append_nil _).symm, hrec.2⟩
  | @append op opEnv r file live henabled hexec =>
    obtain ⟨s₁, hsteps, hdies⟩ := wp_error (exec_takes hsound.placement henabled) hexec
    have hsound₁ := hsound.steps hsteps
    have hlog := hsound₁.logged
    obtain ⟨w, hw, hholds₁⟩ := hlog.holds
    obtain ⟨⟨landed, torn, seq, hlanded, hholds, hlegal⟩, hacked, hstore, hepoch, hstats, _⟩ :=
      hsound₁.dies hdies
    have hfile : live.logFile = w.file := by
      obtain @⟨_, _, _, _, _, hoffers, _, _⟩ := hdies
      rw [logFile, hoffers.storage, hw]
    obtain ⟨rec, hrec⟩ := recover_crashed hX hC hlegal hholds (hstore ▸ hlog.store)
      (hstats ▸ hlog.counted) (hepoch ▸ hlog.epoch) env hio
    have hlogOf : logOf X (some file) = base ++ s₁.acked ++ landed := logOf_holds hX hholds
    rw [hfile, hlogOf, logOf_holds hX hholds₁]
    exact ⟨rec, landed, hrec.1, hlanded, rfl, hrec.2⟩

/-- The process dies with a job in its queue that had been put back after a retry; the
recovered job waits for the time its retry was scheduled for. -/
theorem recover_refines_requeued :
    ∃ rec, (recover Postcard.crates mailBoot.recovery mailConfig
        (some mailRequeued.logFile)).1 = .ok rec ∧
      (mailRequeued.store.get ⟨1⟩).map (·.state) = some .queued ∧
      (rec.store.get ⟨1⟩).map (·.state) = some .retryWaiting ∧
      (⟨1⟩, ⟨100⟩) ∈ rec.retryJobs ∧ rec.retried = mailRequeued.globalStats.retried ∧
      rec.nextLeaseEpoch.toNat = mailRequeued.nextLeaseEpoch.toNat := by
  have hok : (recover Postcard.crates mailBoot.recovery mailConfig
      (some mailRequeued.logFile)).1.isOk = true := by decide +kernel
  have hlease : (lastLease (logOf Postcard.crates (some mailRequeued.logFile)) ⟨1⟩).isSome := by
    decide +kernel
  have hretry : lastRetry (logOf Postcard.crates (some mailRequeued.logFile)) ⟨1⟩ =
      some ⟨100⟩ := by decide +kernel
  have hrecs : reconciliationOf mailBoot.recovery
      (logOf Postcard.crates (some mailRequeued.logFile)) = [] := by decide +kernel
  obtain ⟨rec, landed, hrec, hlanded, _, hto, hcounts, _⟩ :=
    recover_refines Postcard.crates_lawful Postcard.crates_compact
      ((mailStart_reachable Fault.Clean).run (mailRequeued_run Fault.Clean trivial)) .idle
      mailBoot.recovery (fun msg h => by rw [h] at hok; cases hok)
  have hnil : landed = [] := hlanded.elim id id
  subst hnil
  rw [hrecs] at hcounts
  have hget : mailRequeued.store.get ⟨1⟩ =
      some ⟨⟨1⟩, ⟨"mail"⟩, ⟨[1, 2], 3⟩, .queued, 1, ⟨0⟩⟩ := by decide +kernel
  refine ⟨rec, hrec, by rw [hget]; rfl, ?_, ?_, hcounts.retried, hcounts.nextLeaseEpoch⟩
  · have hjob := hto.jobs ⟨1⟩
    rw [hlease] at hjob
    rw [hjob]
    change ((mailRequeued.store.get ⟨1⟩).map _).map _ = _
    rw [hget]
    rfl
  · obtain ⟨t, ht, hmem⟩ := hto.waiting ⟨1⟩ _ hget (Or.inr ⟨rfl, hlease⟩)
    rw [hretry] at ht
    cases ht
    exact hmem

end DurableQueue
