import DurableQueue.Defs.Coordinator.Effects
import DurableQueue.Defs.Coordinator.Placement
import DurableQueue.Defs.Runtime

/-! Every operation is a sequence of atomic steps. -/

namespace DurableQueue

/-- The records that an operation may log, where `s₀` is the state in which the operation
begins and `s` the one right before the record. -/
inductive Op.Persists (s₀ : Coordinator) : Op → Coordinator → WalRecord → Prop
  | timeoutRetry {s : Coordinator} {id : JobId} {l : LeaseId} {a : UInt32} {t : UnixMillis} :
      Persists s₀ .checkLeaseTimeouts s (.jobRetryScheduled id l a t)
  | timeoutDead {s : Coordinator} {id : JobId} {l : LeaseId} {t : UnixMillis} {job : JobRecord}
      (hjob : s.store.get id = some job) (h : job.spec.maxAttempts ≤ job.attempts) :
      Persists s₀ .checkLeaseTimeouts s (.jobDead id l t)
  | dispatch {s : Coordinator} {id : JobId} {l : LeaseId} {a : UInt32} {t : UnixMillis}
      (h : s₀.shuttingDown = false) :
      Persists s₀ .tryDispatchParkedWorkers s (.jobLeased id l a t)
  | submit {s : Coordinator} {id : JobId} {queue : QueueName} {spec : JobSpec}
      {permit : OwnedSemaphorePermit} {reply : Sender} {t : UnixMillis} (h : s₀.shuttingDown = false) :
      Persists s₀ (.handle (.submit queue spec permit reply)) s (.jobSubmitted id queue spec t)
  | submitLease {s : Coordinator} {id : JobId} {queue : QueueName} {spec : JobSpec}
      {permit : OwnedSemaphorePermit} {reply : Sender} {l : LeaseId} {a : UInt32} {t : UnixMillis}
      (h : s₀.shuttingDown = false) :
      Persists s₀ (.handle (.submit queue spec permit reply)) s (.jobLeased id l a t)
  | fetch {s : Coordinator} {id : JobId} {reply : Sender} {l : LeaseId} {a : UInt32}
      {t : UnixMillis} (h : s₀.shuttingDown = false) :
      Persists s₀ (.handle (.fetchWork reply)) s (.jobLeased id l a t)
  | cancel {s : Coordinator} {id : JobId} {reply : Sender} {t : UnixMillis} :
      Persists s₀ (.handle (.cancel id reply)) s (.jobCancelled id t)
  | complete {s : Coordinator} {id : JobId} {l : LeaseId} {t : UnixMillis} :
      Persists s₀ (.handle (.workerOutcome id l .success)) s (.jobCompleted id l t)
  | fatal {s : Coordinator} {id : JobId} {l : LeaseId} {t : UnixMillis} :
      Persists s₀ (.handle (.workerOutcome id l .fatal)) s (.jobDead id l t)
  | retry {s : Coordinator} {id : JobId} {l : LeaseId} {outcome : WorkerOutcome} {a : UInt32}
      {t : UnixMillis} (ho : outcome = .retryable ∨ outcome = .panic) :
      Persists s₀ (.handle (.workerOutcome id l outcome)) s (.jobRetryScheduled id l a t)
  | exhausted {s : Coordinator} {id : JobId} {l : LeaseId} {outcome : WorkerOutcome}
      {t : UnixMillis} {job : JobRecord} (ho : outcome = .retryable ∨ outcome = .panic)
      (hjob : s.store.get id = some job) (h : job.spec.maxAttempts ≤ job.attempts) :
      Persists s₀ (.handle (.workerOutcome id l outcome)) s (.jobDead id l t)

namespace Coordinator

variable {X : Crates} {P : Fault → Prop} {config : RuntimeConfig} {env : Env} {α β : Type}
  {A : Coordinator → WalRecord → Prop} {s₀ s s' : Coordinator}

/-- The process dies in the append of a record that `s₁` offers and `A` allows, or the task
panics when it has logged what `s₁` has. -/
inductive DiesOf (X : Crates) (A : Coordinator → WalRecord → Prop) (s₁ : Coordinator) :
    Crash → Coordinator → Prop
  | append {r : WalRecord} {expose : Coordinator → Coordinator} {writer : WriterThread}
      {written : Nat} {s' : Coordinator} (hoffers : Offers s₁ r s' expose)
      (hstorage : s₁.storage = .wal writer) (hA : A s₁ r) :
      DiesOf X A s₁ (.append r (writer.interrupted X r written)) s'
  | panic {s' : Coordinator} (hstorage : s'.storage = s₁.storage)
      (hjournal : s'.journal = s₁.journal) (hstore : s'.store = s₁.store) :
      DiesOf X A s₁ .panic s'

/-- An atomic step that tries to log only what `A` allows in the state before it. -/
structure StepOf (X : Crates) (P : Fault → Prop) (A : Coordinator → WalRecord → Prop)
    (s s' : Coordinator) : Prop where
  step : Step X P s s'
  allowed : ∀ r, s'.acked = s.acked ++ [r] ∨ s'.failed = s.failed ++ [r] → A s r

abbrev StepsOf (X : Crates) (P : Fault → Prop) (A : Coordinator → WalRecord → Prop) :
    Coordinator → Coordinator → Prop := Relation.ReflTransGen (StepOf X P A)

theorem DiesOf.store {c : Crash} (h : DiesOf X A s c s') : s'.store = s.store := by
  cases h with
  | append hoffers => exact hoffers.store
  | panic _ _ hstore => exact hstore

theorem DiesOf.mono {B : Coordinator → WalRecord → Prop} {c : Crash} (h : DiesOf X B s c s')
    (hB : ∀ s r, B s r → A s r) : DiesOf X A s c s' := by
  cases h with
  | append hoffers hstorage hr => exact .append hoffers hstorage (hB _ _ hr)
  | panic hstorage hjournal hstore => exact .panic hstorage hjournal hstore

/-- Run from `s`, the program takes atomic steps only, counted from `s₀`, and logs only what
`A` allows. -/
abbrev Logs (X : Crates) (P : Fault → Prop) (A : Coordinator → WalRecord → Prop) (m : CoordM α)
    (Q : α → Coordinator → Prop) (s₀ s : Coordinator) : Prop :=
  Does (StepOf X P A) (DiesOf X A) m Q s₀ s

theorem StepOf.silent (h : Step X P s s') (hacked : s'.acked = s.acked)
    (hfailed : s'.failed = s.failed) : StepOf X P A s s' := by
  refine ⟨h, fun r hr => ?_⟩
  simp [hacked, hfailed] at hr

theorem StepOf.quiet (h : Quiet s s') : StepOf X P A s s' :=
  .silent (.quiet h) (by rw [acked, h.journal, acked]) (by rw [failed, h.journal, failed])

theorem StepOf.ack {r : WalRecord} {pre : Coordinator} {expose : Coordinator → Coordinator}
    {fault : Fault} {seq : Option UInt64} {st : Storage} (h : Offers s r pre expose)
    (hA : A s r) (hfault : P fault) (hp : s.storage.persist X r fault = (.ok seq, st)) (tick : Nat) :
    StepOf X P A s (expose (pre.commit r st tick)) := by
  refine ⟨.ack h hfault hp tick, fun r' hr' => ?_⟩
  simp [h.acked_ack, h.failed_ack] at hr'
  exact hr' ▸ hA

theorem StepOf.nack {r : WalRecord} {pre : Coordinator} {expose : Coordinator → Coordinator}
    {fault : Fault} {e : WalError} {st : Storage} (h : Offers s r pre expose) (hA : A s r)
    (hfault : P fault) (hp : s.storage.persist X r fault = (.error e, st)) (tick : Nat) :
    StepOf X P A s (pre.refuse r e st tick) := by
  refine ⟨.nack h hfault hp tick, fun r' hr' => ?_⟩
  simp [h.acked_nack, h.failed_nack] at hr'
  exact hr' ▸ hA

theorem StepsOf.mono {B : Coordinator → WalRecord → Prop} (h : StepsOf X P B s s')
    (hB : ∀ s r, B s r → A s r) : StepsOf X P A s s' :=
  h.lift id fun _ _ hstep => ⟨hstep.step, fun r hr => hB _ r (hstep.allowed r hr)⟩

theorem StepsOf.steps (h : StepsOf X P A s s') : Steps X P s s' :=
  h.lift id fun _ _ h => h.step

theorem Quiet.refl (s : Coordinator) : Quiet s s :=
  ⟨rfl, rfl, rfl, rfl, fun h => h, rfl, rfl, rfl, fun _ => rfl, rfl, rfl, rfl, rfl, fun h => h⟩

theorem draw_bind {source : Nat → α} {f : α → CoordM β} {Q : β → Coordinator → Prop}
    (h : Logs X P A (f (source s.tick)) Q s₀ { s with tick := s.tick + 1 }) :
    Logs X P A (draw source >>= f) Q s₀ s := h

theorem wp_draw {source : Nat → α} {Q : α → Coordinator → Prop}
    {E : Crash → Coordinator → Prop} :
    wp (draw source) Q E s ↔ Q (source s.tick) { s with tick := s.tick + 1 } := Iff.rfl

theorem wp_nowPlus {d : Duration} {Q : Instant → Coordinator → Prop}
    {E : Crash → Coordinator → Prop}
    (hok : (env.instant s.tick).Fits d →
      Q ((env.instant s.tick).add d) { s with tick := s.tick + 1 })
    (hpanic : ¬(env.instant s.tick).Fits d → E .panic { s with tick := s.tick + 1 }) :
    wp (nowPlus env d) Q E s := by
  refine (wp_bind _ _).mpr (wp_draw.mpr ?_)
  unfold Instant.checkedAdd
  split_ifs with hfits
  · exact hok hfits
  · exact hpanic hfits

theorem nowPlus_bind {R : Coordinator → Coordinator → Prop}
    {C : Coordinator → Crash → Coordinator → Prop} {d : Duration} {f : Instant → CoordM β}
    {Q : β → Coordinator → Prop}
    (h : Does R C (f ((env.instant s.tick).add d)) Q s₀ { s with tick := s.tick + 1 })
    (hpanic : ∃ s₁, Relation.ReflTransGen R s₀ s₁ ∧ C s₁ .panic { s with tick := s.tick + 1 }) :
    Does R C (nowPlus env d >>= f) Q s₀ s :=
  (wp_bind _ f).mpr (wp_nowPlus (fun _ => h) fun _ => hpanic)

theorem wp_persist {r : WalRecord} {Q : WalResult (Option UInt64) → Coordinator → Prop}
    {E : Crash → Coordinator → Prop} (hP : ∀ t, P (env.fate t).fault)
    (hok : ∀ fault seq st, P fault → s.storage.persist X r fault = (.ok seq, st) →
      Q (.ok seq) { s with
        storage := st, journal := s.journal ++ [.acked r], tick := s.tick + 1 })
    (herr : ∀ fault e st, P fault → s.storage.persist X r fault = (.error e, st) →
      Q (.error e) (s.refuse r e st (s.tick + 1)))
    (hcrash : ∀ writer written, s.storage = .wal writer →
      E (.append r (writer.interrupted X r written)) s) :
    wp (persist X env r) Q E s := by
  have hfate := hP s.tick
  unfold wp persist
  split
  · rename_i heq
    split at heq
    · cases heq
    · split at heq
      · rename_i hres
        cases heq
        exact hok _ _ _ hfate hres
      · rename_i hres
        cases heq
        exact herr _ _ _ hfate hres
  · rename_i heq
    split at heq
    · rename_i hst
      cases heq
      exact hcrash _ _ hst
    · split at heq <;> cases heq

theorem persist_bind {r : WalRecord} {expose : Coordinator → Coordinator}
    {f : WalResult (Option UInt64) → CoordM β} {Q : β → Coordinator → Prop}
    (hP : ∀ t, P (env.fate t).fault) (hsteps : StepsOf X P A s₀ s') (h : Offers s' r s expose)
    (hA : A s' r)
    (hok : ∀ seq st,
      (∀ {expose t}, Offers s' r s expose → StepOf X P A s' (expose (s.commit r st t))) →
      Logs X P A (f (.ok seq)) Q s₀ { s with
        storage := st, journal := s.journal ++ [.acked r], tick := s.tick + 1 })
    (herr : ∀ e st, StepOf X P A s' (s.refuse r e st (s.tick + 1)) →
      Logs X P A (f (.error e)) Q s₀ (s.refuse r e st (s.tick + 1))) :
    Logs X P A (persist X env r >>= f) Q s₀ s := by
  refine (wp_bind _ f).mpr (wp_persist hP ?_ ?_ ?_)
  · intro fault seq st hfault hp
    rw [h.storage] at hp
    exact hok seq st fun h => .ack h hA hfault hp _
  · intro fault e st hfault hp
    rw [h.storage] at hp
    exact herr e st (.nack h hA hfault hp _)
  · intro writer written hst
    rw [h.storage] at hst
    exact ⟨s', hsteps, .append h hst hA⟩

theorem wp_applyRecord {r : WalRecord} {Q : Except Error Unit → Coordinator → Prop}
    {E : Crash → Coordinator → Prop} (hok : ∀ store, Q (.ok ()) { s with store := store })
    (herr : ∀ e, Q (.error e) { s with journal := s.journal ++ [.diverged r] }) :
    wp (applyRecord r) Q E s := by
  unfold wp applyRecord
  cases s.store.applyRecord r with
  | ok store => exact hok store
  | error e => exact herr e

theorem wp_applyRecord_ok {r : WalRecord} {Q : Except Error Unit → Coordinator → Prop}
    {E : Crash → Coordinator → Prop} {store : MemoryStore}
    (happly : s.store.applyRecord r = .ok store) (h : Q (.ok ()) { s with store := store }) :
    wp (applyRecord r) Q E s := by
  simp only [wp, applyRecord, happly]
  exact h

theorem applyRecord_bind {r : WalRecord} {f : Except Error Unit → CoordM β}
    {Q : β → Coordinator → Prop}
    (happly : s.store.applyRecord r = .ok (s.store.applyRecordForRecovery r))
    (h : Logs X P A (f (.ok ())) Q s₀
      { s with store := s.store.applyRecordForRecovery r }) :
    Logs X P A (applyRecord r >>= f) Q s₀ s :=
  (wp_bind _ f).mpr (wp_applyRecord_ok happly h)

/-! ## Outcomes and timeouts -/

def LeasesShrink (s s' : Coordinator) : Prop :=
  ∀ id l, s'.leases.get id = some l → s.leases.get id = some l

theorem removeLease_shrinks (id : JobId) (s : Coordinator) : LeasesShrink s (s.removeLease id) := by
  intro id' l hl
  change (s.leases.erase id).get id' = some l at hl
  rw [HashMap.get_erase] at hl
  split at hl
  · cases hl
  · exact hl

theorem finishJob_logs (hP : ∀ t, P (env.fate t).fault) {id : JobId} {queue : QueueName}
    {record : UnixMillis → WalRecord} {count : QueueStats → QueueStats}
    {countGlobal : GlobalStats → GlobalStats}
    (h : ∀ t now, Offers { s with tick := t } (record now) (removeLease id { s with tick := t })
      (exposeFinish id queue.asStr count countGlobal))
    (hA : ∀ t now, A { s with tick := t } (record now)) :
    Logs X P A (finishJob X env id queue record count countGlobal)
      (fun _ s' => LeasesShrink s s') s (s.removeLease id) := by
  have hquiet : StepsOf X P A s { s with tick := s.tick + 1 } := .single (.quiet { Quiet.refl s with })
  refine draw_bind (persist_bind hP hquiet (h (s.tick + 1) _) (hA _ _) ?_ ?_)
  · intro seq st hstep
    refine applyRecord_bind (h (s.tick + 1) _).applies ?_
    exact .of_modify (hquiet.tail (hstep (h (s.tick + 1) _))) (removeLease_shrinks id s)
  · intro e st hstep
    exact .of_pure (hquiet.tail hstep) (removeLease_shrinks id s)

theorem completeJob_logs (hP : ∀ t, P (env.fate t).fault) {id : JobId} {lease : ActiveLease}
    {job : JobRecord} (hlease : s.leases.get id = some lease)
    (hjob : s.store.get id = some job) (hstate : job.state = .running)
    (hA : ∀ s t, A s (.jobCompleted id lease.leaseId t)) :
    Logs X P A (completeJob X env id lease.leaseId job.queue)
      (fun _ s' => LeasesShrink s s') s (s.removeLease id) :=
  finishJob_logs hP (fun _ _ => .complete hlease hjob hstate) (fun _ _ => hA _ _)

theorem deadJob_logs (hP : ∀ t, P (env.fate t).fault) {id : JobId} {lease : ActiveLease}
    {job : JobRecord} (hlease : s.leases.get id = some lease)
    (hjob : s.store.get id = some job) (hstate : job.state = .running)
    (hA : ∀ tick t, A { s with tick := tick } (.jobDead id lease.leaseId t)) :
    Logs X P A (deadJob X env id lease.leaseId job.queue)
      (fun _ s' => LeasesShrink s s') s (s.removeLease id) :=
  finishJob_logs hP (fun _ _ => .die hlease hjob hstate) hA

theorem scheduleRetry_logs (hP : ∀ t, P (env.fate t).fault) {id : JobId} {lease : ActiveLease}
    {job : JobRecord} (hlease : s.leases.get id = some lease)
    (hjob : s.store.get id = some job) (hstate : job.state = .running)
    (hattempts : job.attempts < job.spec.maxAttempts)
    (hA : ∀ s a t, A s (.jobRetryScheduled id lease.leaseId a t)) :
    Logs X P A (scheduleRetry X config env id lease.leaseId job.queue job.attempts)
      (fun _ s' => LeasesShrink s s') s (s.removeLease id) := by
  have hquiet : StepsOf X P A s { s with tick := s.tick + 1 + 1 } :=
    .single (.quiet { Quiet.refl s with })
  have hoffer : ∀ deadline availableAt, Offers { s with tick := s.tick + 1 + 1 }
      (.jobRetryScheduled id lease.leaseId job.attempts availableAt)
      (removeLease id { s with tick := s.tick + 1 + 1 })
      (exposeRetry job.queue.asStr ⟨deadline, availableAt, id⟩) :=
    fun _ _ => .retry hlease hjob hstate hattempts
  refine draw_bind (draw_bind (persist_bind hP hquiet (hoffer ⟨0⟩ _) (hA _ _ _) ?_ ?_))
  · intro seq st hstep
    refine applyRecord_bind (hoffer ⟨0⟩ _).applies (nowPlus_bind ?_ ?_)
    · exact .of_modify (hquiet.tail (hstep (hoffer _ _))) (removeLease_shrinks id s)
    · exact ⟨_, hquiet.tail (hstep (t := 0) (hoffer ⟨0⟩ _)), .panic rfl rfl rfl⟩
  · intro e st hstep
    exact .of_pure (hquiet.tail hstep) (removeLease_shrinks id s)

structure AllowsEnd (A : Coordinator → WalRecord → Prop) (id : JobId) (l : LeaseId) : Prop where
  retry : ∀ s a t, A s (.jobRetryScheduled id l a t)
  dead : ∀ s job t, s.store.get id = some job → job.spec.maxAttempts ≤ job.attempts →
    A s (.jobDead id l t)

theorem retryOrDie_logs (hP : ∀ t, P (env.fate t).fault) {id : JobId} {lease : ActiveLease}
    {job : JobRecord} (hlease : s.leases.get id = some lease)
    (hjob : s.store.get id = some job) (hstate : job.state = .running)
    (hA : AllowsEnd A id lease.leaseId) :
    Logs X P A (retryOrDie X config env id lease.leaseId job)
      (fun _ s' => LeasesShrink s s') s (s.removeLease id) := by
  unfold retryOrDie
  split
  · rename_i hge
    exact deadJob_logs hP hlease hjob hstate (fun _ t => hA.dead _ job t hjob hge)
  · rename_i hlt
    exact scheduleRetry_logs hP hlease hjob hstate (UInt32.not_le.mp hlt) hA.retry

theorem Placement.running_of_lease (hs : Placement config s) {id : JobId} {lease : ActiveLease}
    (hl : s.leases.get id = some lease) :
    ∃ job, s.store.get id = some job ∧ job.state = .running := by
  obtain ⟨⟨q, hplace⟩, _⟩ := hs.leased id lease hl
  obtain ⟨job, hget, hstate, _⟩ := MemoryStore.place_eq_some.mp hplace
  exact ⟨job, hget, hstate⟩

theorem doWorkerOutcome_logs (hP : ∀ t, P (env.fate t).fault) (hs : Placement config s) (id : JobId)
    (leaseId : LeaseId) (outcome : WorkerOutcome)
    (hsuccess : outcome = .success → ∀ s t, A s (.jobCompleted id leaseId t))
    (hfatal : outcome = .fatal → ∀ s t, A s (.jobDead id leaseId t))
    (hother : outcome = .retryable ∨ outcome = .panic → AllowsEnd A id leaseId) :
    Logs X P A (doWorkerOutcome X config env id leaseId outcome)
      (fun _ s' => LeasesShrink s s') s s := by
  have hstale : StepsOf X P A s s.staleOutcome := .single (.quiet { Quiet.refl s with })
  refine .get_bind ?_
  cases hl : s.leases.get id with
  | none => exact .of_modify hstale (fun _ _ h => h)
  | some lease =>
    obtain ⟨job, hjob, hstate⟩ := hs.running_of_lease hl
    simp only
    split
    · exact .of_modify hstale (fun _ _ h => h)
    · rename_i heq
      rw [ne_eq, not_not] at heq
      subst heq
      refine .modify_bind (.get_bind ?_)
      rw [show (s.removeLease id).store.get id = some job from hjob]
      cases outcome with
      | success => exact completeJob_logs hP hl hjob hstate (hsuccess rfl)
      | fatal => exact deadJob_logs hP hl hjob hstate (fun _ => hfatal rfl _)
      | retryable => exact retryOrDie_logs hP hl hjob hstate (hother (Or.inl rfl))
      | panic => exact retryOrDie_logs hP hl hjob hstate (hother (Or.inr rfl))

theorem expireLease_logs (hP : ∀ t, P (env.fate t).fault) (hs : Placement config s) {id : JobId}
    {leaseId : LeaseId} (hsame : ∀ l, s.leases.get id = some l → l.leaseId = leaseId)
    (hA : AllowsEnd A id leaseId) :
    Logs X P A (expireLease X config env id leaseId) (fun _ s' => LeasesShrink s s') s s := by
  refine .get_bind ?_
  cases hl : s.leases.get id with
  | none => exact .of_pure .refl (fun _ _ h => h)
  | some lease =>
    obtain ⟨job, hjob, hstate⟩ := hs.running_of_lease hl
    -- the token is cancelled first, which is a quiet step
    let s₁ : Coordinator := { s with cancelled := s.cancelled ++ [lease.leaseId] }
    have hquiet : StepsOf X P A s s₁ := .single (.quiet { Quiet.refl s with })
    have hcancel : s.cancelLease id = s₁.removeLease id := by
      simp only [cancelLease, removeLease, hl, s₁]
    refine .modify_bind (.get_bind ?_)
    rw [show (s.cancelLease id).store.get id = some job from hjob, hcancel, ← hsame lease hl]
    exact (retryOrDie_logs (s := s₁) hP hl hjob hstate (hsame lease hl ▸ hA)).after hquiet

theorem expireLeases_logs (hP : ∀ t, P (env.fate t).fault) (hs : Placement config s)
    (timedOut : List (JobId × LeaseId))
    (hsame : ∀ p ∈ timedOut, ∀ l, s.leases.get p.1 = some l → l.leaseId = p.2)
    (hA : ∀ id l, AllowsEnd A id l) :
    Logs X P A (expireLeases X config env timedOut) (fun _ s' => LeasesShrink s s') s s := by
  induction timedOut generalizing s with
  | nil => exact .of_pure .refl (fun _ _ h => h)
  | cons p rest ih =>
    refine .bind (expireLease_logs hP hs (hsame p (by simp)) (hA _ _)) ?_
    intro _ s₁ hsteps hshrink
    have hrest := ih (Steps.placement (StepsOf.steps hsteps) hs) (fun p' hp' l hl =>
      hsame p' (by simp [hp']) l (hshrink p'.1 l hl))
    exact hrest.mono (fun _ s₂ _ h id l hl => hshrink id l (h id l hl))

theorem checkLeaseTimeouts_logs (hP : ∀ t, P (env.fate t).fault) (hs : Placement config s)
    (hA : ∀ id l, AllowsEnd A id l) :
    Logs X P A (checkLeaseTimeouts X config env) (fun _ s' => LeasesShrink s s') s s := by
  have hquiet : StepsOf X P A s { s with tick := s.tick + 1 + 1 } :=
    .single (.quiet { Quiet.refl s with })
  refine draw_bind (draw_bind (.get_bind ?_))
  refine (expireLeases_logs (s := { s with tick := s.tick + 1 + 1 }) hP
    (Steps.placement (StepsOf.steps hquiet) hs) _ ?_ hA).after hquiet
  intro p hp l hl
  obtain ⟨⟨id, lease⟩, hmem, rfl⟩ := List.mem_map.mp hp
  have hget := (List.mem_filter.mp hmem).1
  simp only [IterOrder.mem_arrange, HashMap.mem_toList] at hget
  rw [hl] at hget
  cases hget
  rfl

/-! ## Leasing -/

theorem advance_quiet {n : Nat} (hn : s.queueOrder.length = n) :
    Quiet s { s with nextQueueIdx := (s.nextQueueIdx + 1) % n } :=
  { Quiet.refl s with
    cursor := fun h => h.imp id fun hlt => hn ▸ Nat.mod_lt _ (Nat.zero_lt_of_lt hlt) }

section

variable (hP : ∀ t, P (env.fate t).fault) (hA : ∀ s id l a t, A s (.jobLeased id l a t))

include hP hA

theorem leaseFront_logs (queueName : String) :
    Logs X P A (leaseFront X config env queueName) (fun _ _ => True) s s := by
  refine .get_bind ?_
  cases hqueue : s.queues.get queueName with
  | none => exact .of_pure .refl trivial
  | some qs =>
    simp only
    cases hfront : qs.ready.head? with
    | none => exact .of_pure .refl trivial
    | some jobId =>
      simp only
      cases hjob : s.store.get jobId with
      | none => exact .of_pure .refl trivial
      | some job =>
        simp only
        split
        · exact .of_pure .refl trivial
        rename_i hstate
        rw [ne_eq, not_not] at hstate
        have hquiet : StepsOf X P A s { s with tick := s.tick + 1 } :=
          .single (.quiet { Quiet.refl s with })
        have hoffer : ∀ deadline leasedAt, Offers { s with tick := s.tick + 1 }
            (.jobLeased jobId ⟨s.nextLeaseEpoch⟩ (job.attempts + 1) leasedAt)
            { s with tick := s.tick + 1 } (fun s' => exposeLease jobId queueName
              ⟨⟨s.nextLeaseEpoch⟩, deadline⟩ (popReady queueName s')) :=
          fun _ _ => .lease hqueue hfront hjob hstate
        refine draw_bind (persist_bind hP hquiet (hoffer ⟨0⟩ _) (hA _ _ _ _ _) ?_ ?_)
        · intro seq st hstep
          refine .modify_bind (applyRecord_bind (hoffer ⟨0⟩ _).applies
            (nowPlus_bind (.modify_bind (.get_bind ?_)) ?_))
          · split <;> exact .of_pure (hquiet.tail (hstep (hoffer _ _))) trivial
          · exact ⟨_, hquiet.tail (hstep (t := 0) (hoffer ⟨0⟩ _)), .panic rfl rfl rfl⟩
        · intro e st hstep
          exact .of_pure (hquiet.tail hstep) trivial

theorem tryLeaseLoop_logs {n : Nat} (hn : s.queueOrder.length = n) (rounds : Nat) :
    Logs X P A (tryLeaseLoop X config env n rounds) (fun _ _ => True) s s := by
  induction rounds generalizing s with
  | zero => exact .of_pure .refl trivial
  | succ rounds ih =>
    have hquiet : StepsOf X P A s { s with nextQueueIdx := (s.nextQueueIdx + 1) % n } :=
      .single (.quiet (advance_quiet hn))
    refine .get_bind (.set_bind (.after hquiet (.bind (leaseFront_logs hP hA _) ?_)))
    intro found s₁ hsteps _
    cases found with
    | some result => exact .of_pure .refl trivial
    | none => exact ih ((congrArg List.length (Steps.queueOrder (StepsOf.steps hsteps))).trans hn)

theorem tryLeaseJob_logs : Logs X P A (tryLeaseJob X config env) (fun _ _ => True) s s :=
  .get_bind (tryLeaseLoop_logs hP hA rfl _)

end

section

variable {R : Coordinator → Coordinator → Prop} {C : Coordinator → Crash → Coordinator → Prop}

theorem dispatchLoop_does
    (hlease : ∀ s, Does R C (tryLeaseJob X config env) (fun _ _ => True) s s)
    (hquiet : ∀ {s s'}, Quiet s s' → s'.nextQueueIdx = s.nextQueueIdx → R s s') (rounds : Nat) :
    Does R C (dispatchLoop X config env rounds) (fun _ _ => True) s s := by
  induction rounds generalizing s with
  | zero => exact .of_pure .refl trivial
  | succ rounds ih =>
    refine .get_bind ?_
    split
    · exact .of_pure .refl trivial
    · refine .bind (hlease s) ?_
      intro leased s₁ _ _
      cases leased with
      | none => exact .of_pure .refl trivial
      | some job =>
        refine .get_bind ?_
        cases s₁.parkedWorkers with
        | nil => exact ih
        | cons worker rest =>
          refine .modify_bind (.after (.single (hquiet ?_ ?_)) ih)
          · exact { Quiet.refl s₁ with }
          · rfl

theorem tryDispatchParkedWorkers_does (hlease : s.shuttingDown = false →
      ∀ s, Does R C (tryLeaseJob X config env) (fun _ _ => True) s s)
    (hquiet : ∀ {s s'}, Quiet s s' → s'.nextQueueIdx = s.nextQueueIdx → R s s') :
    Does R C (tryDispatchParkedWorkers X config env) (fun _ _ => True) s s := by
  refine .get_bind ?_
  split
  · exact .of_pure .refl trivial
  · rename_i hup
    exact .get_bind (dispatchLoop_does (hlease (Bool.not_eq_true _ ▸ hup)) hquiet _)

theorem doFetchWork_does (reply : Sender) (hlease : s.shuttingDown = false →
      ∀ s, Does R C (tryLeaseJob X config env) (fun _ _ => True) s s)
    (hquiet : ∀ {s s'}, Quiet s s' → s'.nextQueueIdx = s.nextQueueIdx → R s s') :
    Does R C (doFetchWork X config env reply) (fun _ _ => True) s s := by
  refine .get_bind ?_
  split
  · exact .of_modify (.single (hquiet { Quiet.refl s with } rfl)) trivial
  · rename_i hup
    refine .bind (hlease (Bool.not_eq_true _ ▸ hup) s) ?_
    intro leased s₁ _ _
    cases leased with
    | none => exact .of_modify (.single (hquiet { Quiet.refl s₁ with } rfl)) trivial
    | some job => exact .of_modify (.single (hquiet { Quiet.refl s₁ with } rfl)) trivial

end

theorem tryDispatchParkedWorkers_logs (hP : ∀ t, P (env.fate t).fault)
    (hA : s.shuttingDown = false → ∀ s id l a t, A s (.jobLeased id l a t)) :
    Logs X P A (tryDispatchParkedWorkers X config env) (fun _ _ => True) s s :=
  tryDispatchParkedWorkers_does (fun hup _ => tryLeaseJob_logs hP (hA hup)) fun h _ => .quiet h

theorem doFetchWork_logs (hP : ∀ t, P (env.fate t).fault) (reply : Sender)
    (hA : s.shuttingDown = false → ∀ s id l a t, A s (.jobLeased id l a t)) :
    Logs X P A (doFetchWork X config env reply) (fun _ _ => True) s s :=
  doFetchWork_does reply (fun hup _ => tryLeaseJob_logs hP (hA hup)) fun h _ => .quiet h

/-! ## Submission and cancellation -/

theorem doSubmit_does {R : Coordinator → Coordinator → Prop}
    {C : Coordinator → Crash → Coordinator → Prop} (hP : ∀ t, P (env.fate t).fault)
    {queue : QueueName} {permit : OwnedSemaphorePermit}
    (hfresh : ∀ t, s.store.get (env.uuid t) = none) (hpermit : permit ∈ s.inFlight)
    (hfor : permit.queue = queue.asStr) (spec : JobSpec)
    (hR : ∀ s', StepsOf X P (fun _ r => ∃ id t, r = .jobSubmitted id queue spec t) s s' →
      s'.nextQueueIdx = s.nextQueueIdx → Relation.ReflTransGen R s s')
    (hC : ∀ s₁ c s', DiesOf X (fun _ r => ∃ id t, r = .jobSubmitted id queue spec t) s₁ c s' →
      C s₁ c s')
    (hdispatch : ∀ s₁, Does R C (tryDispatchParkedWorkers X config env) (fun _ _ => True) s₁ s₁) :
    Does R C (doSubmit X config env queue spec permit)
      (fun result s' => (∃ e, result = .error e) → permit ∈ s'.inFlight) s s := by
  refine .get_bind ?_
  split
  · exact .of_pure .refl (fun _ => hpermit)
  rename_i hqueue
  rw [Option.isNone_iff_eq_none, ← ne_eq, Option.ne_none_iff_isSome] at hqueue
  split
  · exact .of_pure .refl (fun _ => hpermit)
  have hquiet : StepsOf X P (fun _ r => ∃ id t, r = .jobSubmitted id queue spec t) s
      { s with tick := s.tick + 1 + 1 } := .single (.quiet { Quiet.refl s with })
  have hoffer : ∀ createdAt, Offers { s with tick := s.tick + 1 + 1 }
      (.jobSubmitted (env.uuid s.tick) queue spec createdAt) { s with tick := s.tick + 1 + 1 }
      (exposeSubmit (env.uuid s.tick) queue permit) :=
    fun _ => .submit hqueue (hfresh _) hpermit hfor
  refine (wp_bind _ _).mpr (wp_draw.mpr ((wp_bind _ _).mpr (wp_draw.mpr ?_)))
  refine (wp_bind _ _).mpr (wp_persist hP ?_ ?_ ?_)
  · intro fault seq st hfault hp
    refine (wp_bind _ _).mpr (wp_applyRecord_ok (hoffer _).applies ((wp_bind _ _).mpr (wp_get.mpr
      ((wp_bind _ _).mpr ((wp_modify _).mpr ?_)))))
    have hsteps := hquiet.tail (.ack (hoffer _) ⟨_, _, rfl⟩ hfault hp (s.tick + 1 + 1 + 1))
    refine Does.after (hR _ hsteps rfl) (.bind (hdispatch _) ?_)
    intro _ s₁ _ _
    exact .of_pure .refl (by simp)
  · intro fault e st hfault hp
    have hsteps := hquiet.tail (.nack (hoffer _) ⟨_, _, rfl⟩ hfault hp (s.tick + 1 + 1 + 1))
    exact ⟨hR _ hsteps rfl, fun _ => hpermit⟩
  · intro writer written hst
    exact ⟨_, hR _ hquiet rfl, hC _ _ _ (.append (hoffer _) hst ⟨_, _, rfl⟩)⟩

theorem doSubmit_logs (hP : ∀ t, P (env.fate t).fault) {queue : QueueName}
    {permit : OwnedSemaphorePermit} (hfresh : ∀ t, s.store.get (env.uuid t) = none)
    (hpermit : permit ∈ s.inFlight) (hfor : permit.queue = queue.asStr) (spec : JobSpec)
    (hA : ∀ s id t, A s (.jobSubmitted id queue spec t))
    (hlease : ∀ s id l a t, A s (.jobLeased id l a t)) :
    Logs X P A (doSubmit X config env queue spec permit)
      (fun result s' => (∃ e, result = .error e) → permit ∈ s'.inFlight) s s := by
  have hsubmits : ∀ s r, (∃ id t, r = .jobSubmitted id queue spec t) → A s r := by
    rintro s _ ⟨id, t, rfl⟩
    exact hA s id t
  refine doSubmit_does hP hfresh hpermit hfor spec (fun _ hsteps _ => StepsOf.mono hsteps hsubmits) ?_
    fun _ => tryDispatchParkedWorkers_logs hP fun _ => hlease
  exact fun _ _ _ h => h.mono hsubmits

theorem doCancel_logs (hP : ∀ t, P (env.fate t).fault) (id : JobId)
    (hA : ∀ s t, A s (.jobCancelled id t)) :
    Logs X P A (doCancel X env id) (fun _ _ => True) s s := by
  refine .get_bind ?_
  cases hjob : s.store.get id with
  | none => exact .of_pure .refl trivial
  | some job =>
    simp only
    split
    · exact .of_pure .refl trivial
    rename_i hlive
    rw [Bool.not_eq_true] at hlive
    have hquiet : StepsOf X P A s { s with tick := s.tick + 1 } :=
      .single (.quiet { Quiet.refl s with })
    have hoffer : ∀ cancelledAt, Offers { s with tick := s.tick + 1 }
        (.jobCancelled id cancelledAt) { s with tick := s.tick + 1 }
        (exposeCancel id job.queue.asStr job.state) := fun _ => .cancel hjob hlive
    refine draw_bind (persist_bind hP hquiet (hoffer _) (hA _ _) ?_ ?_)
    · intro seq st hstep
      refine applyRecord_bind (hoffer _).applies (.get_bind (.modify_bind ?_))
      exact .of_pure (hquiet.tail (hstep (hoffer _))) trivial
    · intro e st hstep
      exact .of_pure (hquiet.tail hstep) trivial

/-! ## Due retries -/

theorem popDueRetry_step {entry : RetryEntry} (hentry : entry ∈ s.retryQueue) :
    StepOf X P A s (s.popDueRetry entry) := by
  simp only [popDueRetry]
  cases hjob : s.store.get entry.jobId with
  | none => exact .silent (.dropEntry hentry (by simp [hjob])) rfl rfl
  | some job =>
    simp only
    split
    · rename_i hstate
      refine .silent (.dropEntry hentry ?_) rfl rfl
      intro job' hjob'
      rw [hjob] at hjob'
      cases hjob'
      exact hstate
    · rename_i hstate
      rw [ne_eq, not_not] at hstate
      rw [MemoryStore.transitionToQueued_eq hjob hstate]
      exact .silent (.requeue hentry hjob hstate) rfl rfl

theorem dueRetriesLoop_logs (now : Instant) (rounds : Nat) :
    Logs X P A (dueRetriesLoop env now rounds) (fun _ _ => True) s s := by
  induction rounds generalizing s with
  | zero => exact .of_pure .refl trivial
  | succ rounds ih =>
    have hquiet : StepsOf X P A s { s with tick := s.tick + 1 } :=
      .single (.quiet { Quiet.refl s with })
    refine draw_bind (.get_bind ?_)
    split
    · exact .of_pure hquiet trivial
    rename_i entry htop
    split
    · exact .of_pure hquiet trivial
    have hentry : entry ∈ s.retryQueue :=
      (IterOrder.mem_arrange _).mp (List.argmin_mem htop)
    refine .modify_bind (.after (hquiet.tail (popDueRetry_step ?_)) ih)
    exact hentry

theorem processDueRetries_logs :
    Logs X P A (processDueRetries env) (fun _ _ => True) s s := by
  have hquiet : StepsOf X P A s { s with tick := s.tick + 1 } :=
    .single (.quiet { Quiet.refl s with })
  exact draw_bind (.get_bind (.after hquiet (dueRetriesLoop_logs _ _)))

/-! ## Shutdown and commands -/

theorem available_closeSemaphores (s : Coordinator) (q : String) :
    (s.closeSemaphores.semaphores.get q).map (·.available) =
      (s.semaphores.get q).map (·.available) := by
  simp only [closeSemaphores, HashMap.get_mapValues, Option.map_map]
  rfl

theorem startShutdown_logs (reply : Sender) :
    Logs X P A (startShutdown config env reply) (fun _ _ => True) s s := by
  have hquiet : ∀ sent deadline shutdownReply tick,
      Quiet s { s.closeSemaphores with
        shuttingDown := true, shutdownToken := true, parkedWorkers := [], sent := sent,
        shutdownDeadline := deadline, shutdownReply := shutdownReply, tick := tick } :=
    fun _ _ _ _ => { Quiet.refl s with available := available_closeSemaphores s }
  refine .get_bind ?_
  split
  · exact .of_modify (.single (.quiet { Quiet.refl s with })) trivial
  · refine .modify_bind (.modify_bind (.get_bind ?_))
    split
    · exact .of_modify (.single (.quiet (hquiet _ _ _ _))) trivial
    · refine nowPlus_bind (.of_modify (.single (.quiet (hquiet _ _ _ _))) trivial) ?_
      exact ⟨s, .refl, .panic rfl rfl rfl⟩

theorem checkExit_logs : Logs X P A (checkExit env) (fun _ _ => True) s s := by
  refine .get_bind ?_
  split
  · refine ⟨.single (.quiet ?_), trivial⟩
    exact { Quiet.refl s with
      available := available_closeSemaphores s
      exited := fun h => by simp [exit] at h }
  · split
    · exact .of_pure .refl trivial
    · have hquiet : StepsOf X P A s { s with tick := s.tick + 1 } :=
        .single (.quiet { Quiet.refl s with })
      refine draw_bind ?_
      split
      · exact .of_modify (hquiet.tail (.silent .forceShutdown (acked_forceShutdown _)
          (failed_forceShutdown _))) trivial
      · exact .of_pure hquiet trivial

theorem handle_logs (hs : Placement config s) {cmd : Command}
    (h : (Op.handle cmd).Enabled P env s) :
    Logs X P ((Op.handle cmd).Persists s) (handle X config env cmd) (fun _ _ => True) s s := by
  have hquiet : ∀ {A : Coordinator → WalRecord → Prop} (s₁ : Coordinator) reply msg,
      StepOf X P A s₁ (send reply msg s₁) := fun s₁ _ _ => .quiet { Quiet.refl s₁ with }
  cases cmd with
  | submit queue spec permit reply =>
    obtain ⟨hpermit, hfor⟩ := h.holds
    have hsubmit : Logs X P ((Op.handle (.submit queue spec permit reply)).Persists s)
        (submitResult X config env queue spec permit)
        (fun result s' => (∃ e, result = .error e) → permit ∈ s'.inFlight) s s := by
      refine .get_bind ?_
      split
      · exact .of_pure .refl (fun _ => hpermit)
      · rename_i hup
        rw [Bool.not_eq_true] at hup
        exact doSubmit_logs h.fault h.fresh hpermit hfor spec (fun _ _ _ => .submit hup)
          (fun _ _ _ _ _ => .submitLease hup)
    refine .bind hsubmit ?_
    intro result s₁ _ hkeep
    refine .modify_bind ?_
    cases result with
    | ok job => exact .of_modify (.single (hquiet s₁ _ _)) trivial
    | error e =>
      have hreturn : StepOf X P ((Op.handle (.submit queue spec permit reply)).Persists s) s₁
          (s₁.returnPermit permit) := .silent (.returnPermit (hkeep ⟨e, rfl⟩)) rfl rfl
      exact .of_modify ((Relation.ReflTransGen.single hreturn).tail (hquiet _ _ _)) trivial
  | status id reply =>
    have hstatus : Logs X P ((Op.handle (.status id reply)).Persists s) (doStatus id)
        (fun _ s' => s' = s) s s := by
      refine .get_bind ?_
      split <;> exact .of_pure .refl rfl
    refine .bind hstatus ?_
    rintro result s₁ _ rfl
    exact .of_modify (.single (hquiet _ _ _)) trivial
  | cancel id reply =>
    refine .bind (doCancel_logs h.fault id fun _ _ => .cancel) ?_
    intro result s₁ _ _
    exact .of_modify (.single (hquiet _ _ _)) trivial
  | stats reply => exact .of_modify (.single (hquiet _ _ _)) trivial
  | fetchWork reply => exact doFetchWork_logs h.fault reply fun hup _ _ _ _ _ => .fetch hup
  | workerOutcome id leaseId outcome =>
    refine (doWorkerOutcome_logs h.fault hs id leaseId outcome ?_ ?_ ?_).mono
      (fun _ _ _ _ => trivial)
    · rintro rfl s' t
      exact .complete
    · rintro rfl s' t
      exact .fatal
    · exact fun ho => ⟨fun _ _ _ => .retry ho, fun _ _ _ hjob hge => .exhausted ho hjob hge⟩
  | shutdown reply => exact startShutdown_logs reply

/-- Every operation takes atomic steps only, and logs what its kind allows. -/
theorem exec_logs (hs : Placement config s) {op : Op} (h : op.Enabled P env s) :
    Logs X P (op.Persists s) (exec X config env op) (fun _ _ => True) s s := by
  cases op with
  | processDueRetries => exact processDueRetries_logs
  | checkLeaseTimeouts =>
    refine (checkLeaseTimeouts_logs h.fault hs fun _ _ => ?_).mono (fun _ _ _ _ => trivial)
    exact ⟨fun _ _ _ => .timeoutRetry, fun _ _ _ hjob hge => .timeoutDead hjob hge⟩
  | tryDispatchParkedWorkers =>
    exact tryDispatchParkedWorkers_logs h.fault fun hup _ _ _ _ _ => .dispatch hup
  | checkExit => exact checkExit_logs
  | handle cmd => exact handle_logs hs h
  | hangUp =>
    refine .of_modify (.single (.quiet ?_)) trivial
    exact { Quiet.refl s with
      available := available_closeSemaphores s
      exited := fun h => by simp [exit] at h }

theorem exec_takes (hs : Placement config s) {op : Op} (h : op.Enabled P env s) :
    Does (Step X P) (DiesOf X (op.Persists s)) (exec X config env op) (fun _ _ => True) s s :=
  wp_mono (exec_logs hs h) (fun _ _ hok => ⟨StepsOf.steps hok.1, trivial⟩)
    (fun _ _ ⟨s₁, hsteps, hdies⟩ => ⟨s₁, StepsOf.steps hsteps, hdies⟩)

end Coordinator

open Coordinator

variable {X : Crates} {P : Fault → Prop} {config : RuntimeConfig} {s s' : Coordinator}

theorem ProcStep.steps (h : ProcStep X P config s s') (hs : Placement config s) :
    Steps X P s s' := by
  cases h with
  | acquire hsem havail hopen => exact .single (.acquire hsem havail)
  | abandon hpermit => exact .single (.returnPermit hpermit)
  | exec henabled hrun => exact (wp_ok (exec_takes hs henabled) hrun).1

/-- A run of a process is a sequence of atomic steps. -/
theorem steps_of_run (h : Relation.ReflTransGen (ProcStep X P config) s s')
    (hs : Placement config s) : Steps X P s s' := by
  induction h with
  | refl => exact .refl
  | tail _ hstep ih => exact ih.trans (hstep.steps (Steps.placement ih hs))

end DurableQueue
