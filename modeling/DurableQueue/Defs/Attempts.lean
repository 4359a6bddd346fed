import DurableQueue.Defs.SystemLaws

/-! The attempts of a job: how they are numbered in the log, how many there are, and when a
job runs out of them. -/

namespace DurableQueue

open Coordinator

variable {X : Crates} {config : RuntimeConfig} {log : List WalRecord}

def WalRecord.attemptFor (id : JobId) : WalRecord → Option UInt32
  | .jobLeased id' _ attempt _ => if id' = id then some attempt else none
  | _ => none

def attemptsOf (log : List WalRecord) (id : JobId) : List UInt32 :=
  log.filterMap (·.attemptFor id)

theorem attemptsOf_snoc (log : List WalRecord) (r : WalRecord) (id : JobId) :
    attemptsOf (log ++ [r]) id = attemptsOf log id ++ (r.attemptFor id).toList := by
  rw [attemptsOf, List.filterMap_append]
  cases h : r.attemptFor id <;> simp [h, attemptsOf]

theorem WalRecord.attemptFor_other {r : WalRecord} {id : JobId} (h : id ≠ r.jobId) :
    r.attemptFor id = none := by
  cases r <;> simp_all [attemptFor, jobId, eq_comm]

structure Tried (attempts : List UInt32) (job : JobRecord) : Prop where
  counted : job.attempts.toNat = attempts.length
  bounded : job.attempts.toNat ≤ max 1 job.spec.maxAttempts.toNat
  left : job.state = .queued ∨ job.state = .retryWaiting →
    job.attempts.toNat < max 1 job.spec.maxAttempts.toNat

theorem JobRecord.attempts_succ {job : JobRecord}
    (h : job.attempts.toNat < max 1 job.spec.maxAttempts.toNat) :
    (job.attempts + 1).toNat = job.attempts.toNat + 1 := by
  have hmax := job.spec.maxAttempts.toNat_lt
  rw [UInt32.toNat_add, UInt32.toNat_one]
  omega

theorem Tried.attempts_succ {attempts : List UInt32} {job : JobRecord} (h : Tried attempts job)
    (hstate : job.state = .queued ∨ job.state = .retryWaiting) :
    (job.attempts + 1).toNat = job.attempts.toNat + 1 := JobRecord.attempts_succ (h.left hstate)

structure Numbered (attempts : List UInt32) (job : Option JobRecord) : Prop where
  range : attempts.map UInt32.toNat = List.range' 1 attempts.length
  unknown : job = none → attempts = []
  tried : ∀ j, job = some j → Tried attempts j

theorem Numbered.move {attempts : List UInt32} {job : JobRecord}
    (h : Numbered attempts (some job)) {st : JobState}
    (hleft : st = .queued ∨ st = .retryWaiting →
      job.attempts.toNat < max 1 job.spec.maxAttempts.toNat) :
    Numbered (attempts ++ []) (some { job with state := st }) := by
  rw [List.append_nil]
  have htried := h.tried job rfl
  refine ⟨h.range, fun hj => (nomatch hj), fun j hj => ?_⟩
  cases hj
  exact ⟨htried.counted, htried.bounded, hleft⟩

theorem Numbered.lease {attempts : List UInt32} {job : JobRecord}
    (h : Numbered attempts (some job))
    (hstate : job.state = .queued ∨ job.state = .retryWaiting) :
    Numbered (attempts ++ [job.attempts + 1])
      (some { job with state := .running, attempts := job.attempts + 1 }) := by
  have htried := h.tried job rfl
  have hsucc := htried.attempts_succ hstate
  have hcounted := htried.counted
  refine ⟨?_, fun hj => (nomatch hj), fun j hj => ?_⟩
  · rw [List.map_append, h.range, List.map_singleton, hsucc, hcounted, List.length_append,
      List.length_singleton, List.range'_1_concat, Nat.add_comm 1]
  · cases hj
    refine ⟨?_, ?_, ?_⟩
    · rw [hsucc, hcounted, List.length_append, List.length_singleton]
    · have := htried.left hstate
      dsimp only
      omega
    · rintro (hst | hst) <;> cases hst

theorem Legal.numbered (h : Legal config log) (id : JobId) :
    Numbered (attemptsOf log id) ((replayed log).get id) := by
  induction h with
  | nil => exact ⟨rfl, fun _ => rfl, fun j hj => by cases hj⟩
  | @snoc log r h hr ih =>
    rw [attemptsOf_snoc, replayed, MemoryStore.replay_snoc,
      MemoryStore.get_applyRecordForRecovery]
    by_cases hid : id = r.jobId
    · rw [if_pos hid]
      subst hid
      cases hr with
      | submit hfresh =>
        have hnil := ih.unknown hfresh
        refine ⟨?_, fun hj => (by cases hj), fun j hj => ?_⟩
        · rw [hnil]
          rfl
        · cases hj
          rw [hnil]
          exact ⟨rfl, Nat.zero_le _, fun _ => by simp [JobRecord.new]⟩
      | lease hjob hstate =>
        rw [WalRecord.jobId, hjob] at ih ⊢
        rw [WalRecord.attemptFor, if_pos rfl]
        exact ih.lease hstate
      | retry hjob _ _ hattempts =>
        rw [WalRecord.jobId, hjob] at ih ⊢
        refine ih.move fun _ => ?_
        have := UInt32.lt_iff_toNat_lt.mp hattempts
        omega
      | complete hjob | die hjob | cancel hjob =>
        rw [WalRecord.jobId, hjob] at ih ⊢
        refine ih.move ?_
        rintro (hst | hst) <;> cases hst
    · rw [if_neg hid, WalRecord.attemptFor_other hid, Option.toList_none, List.append_nil]
      exact ih

theorem Coordinator.Sound.tried {base : List WalRecord} {past : List LeaseId}
    {s₀ s : Coordinator} (h : Sound X config base past s₀ s) {id : JobId} {job : JobRecord}
    (hjob : s.store.get id = some job) : Tried (attemptsOf (base ++ s.acked) id) job := by
  have hnumbered := h.logged.legal.numbered id
  rcases h.logged.store.get_some hjob with hr | ⟨_, hr⟩
  · exact hnumbered.tried job hr
  · obtain ⟨hcounted, hbounded, hleft⟩ := hnumbered.tried _ hr
    exact ⟨hcounted, hbounded, fun _ => hleft (Or.inr rfl)⟩

/-! ## Deaths -/

theorem Op.Persists.dead {id : JobId} {l : LeaseId} {t : UnixMillis}
    {op : Op} {s₀ s : Coordinator}
    (h : op.Persists s₀ s (.jobDead id l t)) :
    op = .handle (.workerOutcome id l .fatal) ∨
      ∃ job, s.store.get id = some job ∧ job.spec.maxAttempts ≤ job.attempts := by
  cases h with
  | fatal => exact Or.inl rfl
  | timeoutDead hjob h | exhausted _ hjob h => exact Or.inr ⟨_, hjob, h⟩

namespace Coordinator

variable {P : Fault → Prop} {s₀ s s' : Coordinator} {op : Op}

/-- Every job that is dead in `s'` was so in `s`, or dies of a fatal outcome that `op`
reports, or has had all of its attempts. -/
def DeathsExplained (op : Op) (s s' : Coordinator) : Prop :=
  ∀ id job, s'.store.get id = some job → job.state = .dead →
    s.store.get id = some job ∨ (∃ l, op = .handle (.workerOutcome id l .fatal)) ∨
      job.spec.maxAttempts ≤ job.attempts

theorem StepOf.deathsExplained (h : StepOf X P (op.Persists s₀) s s') : DeathsExplained op s s' := by
  obtain ⟨hstep, hallowed⟩ := h
  intro id job hjob hdead
  cases hstep with
  | quiet h =>
    rw [h.store] at hjob
    exact Or.inl hjob
  | @ack r pre expose fault seq storage h hfault hp tick =>
    have hr := hallowed r (.inl (h.acked_ack _ tick))
    rcases MemoryStore.get_apply_cases (h.store_ack storage tick ▸ hjob) with
      ⟨_, hold⟩ | ⟨rfl, hdst⟩
    · exact Or.inl hold
    · rw [hdead] at hdst
      cases r with
      | jobDead id l t =>
        obtain ⟨old, hold, _⟩ := h.job rfl
        rw [h.get_ack_self storage tick hold] at hjob
        cases hjob
        rcases hr.dead with rfl | ⟨old', hold', hge⟩
        · exact Or.inr (Or.inl ⟨l, rfl⟩)
        · change s.store.get id = some old at hold
          rw [hold] at hold'
          cases hold'
          exact Or.inr (Or.inr hge)
      | jobSubmitted | jobLeased | jobRetryScheduled | jobCompleted | jobCancelled => cases hdst
  | nack h _ _ tick =>
    rw [h.store_nack] at hjob
    exact Or.inl hjob
  | @requeue entry old hentry hold hstate =>
    change (s.store.insert entry.jobId { old with state := .queued }).get id = some job at hjob
    rw [HashMap.get_insert] at hjob
    split at hjob
    · cases hjob
      cases hdead
    · exact Or.inl hjob
  | dropEntry | acquire | returnPermit => exact Or.inl hjob
  | forceShutdown =>
    rw [store_forceShutdown] at hjob
    exact Or.inl hjob

theorem StepsOf.deathsExplained (h : StepsOf X P (op.Persists s₀) s s') :
    DeathsExplained op s s' := by
  induction h with
  | refl => exact fun id job hjob _ => Or.inl hjob
  | tail _ hstep ih =>
    intro id job hjob hdead
    rcases hstep.deathsExplained id job hjob hdead with hold | hwhy
    · exact ih id job hold hdead
    · exact Or.inr hwhy

end Coordinator

/-- Attempts are accounted for, over any number of crashes and restarts.  The leases of a job
number its attempts from 1; a job has as many attempts as there are leases of it in the log,
never more than it may have, and less while it still waits for one, so that counting the next
one does not overflow.  A job dies only of a fatal outcome or when it has had all attempts:
in an operation, in the record that an operation was appending when the process died, and in
the reconciliation of a recovery. -/
theorem attempt_accounting (hX : X.Lawful) (hC : X.Compact) {sys : Sys}
    (h : Reachable X Fault.Clean config sys) :
    (∀ id, (attemptsOf (sys.log X) id).map UInt32.toNat =
      List.range' 1 (attemptsOf (sys.log X) id).length) ∧
    (∀ past s₀ s, sys = .up past s₀ s → ∀ id job, s.store.get id = some job →
      job.attempts.toNat = (attemptsOf (sys.log X) id).length ∧
      job.attempts.toNat ≤ max 1 job.spec.maxAttempts.toNat ∧
      (job.state = .queued ∨ job.state = .retryWaiting →
        job.attempts.toNat < max 1 job.spec.maxAttempts.toNat ∧
        (job.attempts + 1).toNat = job.attempts.toNat + 1)) ∧
    (∀ past s₀ s, sys = .up past s₀ s → ∀ op env, op.Enabled Fault.Clean env s →
      (∀ s', exec X config env op s = .ok () s' → DeathsExplained op s s') ∧
      ∀ c s', exec X config env op s = .error c s' → DeathsExplained op s s' ∧
        ∀ id l t file, c = .append (.jobDead id l t) file →
          op = .handle (.workerOutcome id l .fatal) ∨
            ∃ job, s'.store.get id = some job ∧ job.spec.maxAttempts ≤ job.attempts) ∧
    ∀ env id l t, .jobDead id l t ∈ reconciliationOf env (sys.log X) →
      ∃ job, (replayed (sys.log X)).get id = some job ∧ job.spec.maxAttempts ≤ job.attempts := by
  have hat := h.atLog hX hC
  refine ⟨fun id => (hat.legal.numbered id).range, ?_, ?_, ?_⟩
  · rintro past s₀ s rfl id job hjob
    obtain ⟨base, hbase, hsound, _⟩ := hat
    have htried := hsound.tried hjob
    rw [← hbase] at htried
    exact ⟨htried.counted, htried.bounded, fun hs => ⟨htried.left hs, htried.attempts_succ hs⟩⟩
  · rintro past s₀ s rfl op env henabled
    obtain ⟨base, hbase, hsound, _⟩ := hat
    have hlogs := exec_logs (X := X) hsound.placement henabled
    refine ⟨fun s' hexec => StepsOf.deathsExplained (wp_ok hlogs hexec).1, fun c s' hexec => ?_⟩
    obtain ⟨s₁, hsteps, hdies⟩ := wp_error hlogs hexec
    rw [DeathsExplained, hdies.store]
    refine ⟨StepsOf.deathsExplained hsteps, ?_⟩
    rintro id l t file rfl
    obtain @⟨_, _, _, _, _, _, _, hr⟩ := hdies
    exact hr.dead
  · intro env id l t hmem
    obtain ⟨now, l', job, heq, hjob, _⟩ :=
      reconciliationOf_reconciles env hat.legal.nodup _ hmem
    refine ⟨job, hjob, ?_⟩
    rw [reconciliation] at heq
    split at heq
    · cases heq
    · rename_i hnot
      exact UInt32.not_lt.mp hnot

/-- The job that is back in its queue has had one of its three attempts. -/
theorem attempt_accounting_requeued :
    (attemptsOf (logOf Postcard.crates (some mailRequeued.logFile)) ⟨1⟩).map UInt32.toNat = [1] ∧
      (mailRequeued.store.get ⟨1⟩).map (·.attempts.toNat) =
        some (attemptsOf (logOf Postcard.crates (some mailRequeued.logFile)) ⟨1⟩).length := by
  have hget : mailRequeued.store.get ⟨1⟩ =
      some ⟨⟨1⟩, ⟨"mail"⟩, ⟨[1, 2], 3⟩, .queued, 1, ⟨0⟩⟩ := by decide +kernel
  have hlength : (attemptsOf (logOf Postcard.crates (some mailRequeued.logFile)) ⟨1⟩).length = 1 := by
    decide +kernel
  obtain ⟨hrange, hcounted, _⟩ := attempt_accounting Postcard.crates_lawful
    Postcard.crates_compact
    ((mailStart_reachable Fault.Clean).run (mailRequeued_run Fault.Clean trivial))
  refine ⟨?_, ?_⟩
  · have hone := hrange ⟨1⟩
    rw [Sys.log, hlength] at hone
    exact hone
  · rw [hget, Option.map_some]
    exact congrArg some (hcounted _ _ _ rfl ⟨1⟩ _ hget).1

/-- Surroundings in which the process dies after the first append has written everything. -/
def mailCrash : Env := { mailEnv ⟨2⟩ .none with fate := fun _ => .crash 1000 }

/-- The file left behind by a process that dies while it logs the lease of the job. -/
def mailLeaseFile : List UInt8 :=
  match exec Postcard.crates mailConfig mailCrash (.handle (.fetchWork 1)) mailSubmitted with
  | .error (.append _ file) _ => file
  | .ok _ s | .error .panic s => s.logFile

def mailLeaseRestarted : Coordinator :=
  startedOr mailStart (startWal Postcard.crates mailBoot mailConfig (some mailLeaseFile)).1

/-- A lease that was being appended at a crash is in the log without ever having been
acknowledged; after the restart the job has one attempt. -/
theorem landed_lease_counts :
    Reachable Postcard.crates (· = .none) mailConfig
        (.up mailSubmitted.journal mailLeaseRestarted mailLeaseRestarted) ∧
      (mailLeaseRestarted.store.get ⟨1⟩).map (·.attempts) = some 1 ∧
      attemptsOf (Sys.acked (.up mailSubmitted.journal mailLeaseRestarted mailLeaseRestarted))
        ⟨1⟩ = [] := by
  have hup := (mailStart_reachable (· = .none)).run
    ((Relation.ReflTransGen.single (mailAcquired_step (· = .none))).tail
      (mailSubmitted_step (· = .none) rfl))
  have henabled : (Op.handle (.fetchWork 1)).Enabled (· = .none) mailCrash mailSubmitted :=
    ⟨rfl, trivial, fun _ => rfl, fun _ => rfl⟩
  have hexec : exec Postcard.crates mailConfig mailCrash (.handle (.fetchWork 1)) mailSubmitted =
      .error (.append (.jobLeased ⟨1⟩ ⟨1⟩ 1 ⟨0⟩) mailLeaseFile)
        { mailSubmitted with tick := mailSubmitted.tick + 1 } := rfl
  have hboot : ∃ file, startWal Postcard.crates mailBoot mailConfig (some mailLeaseFile) =
      (.ok mailLeaseRestarted, file) := startWal_of_isOk mailStart (by decide +kernel)
  obtain ⟨file, hstart⟩ := hboot
  exact ⟨(hup.tail (.dies henabled hexec)).tail (.boot hstart), by decide +kernel,
    by decide +kernel⟩

end DurableQueue
