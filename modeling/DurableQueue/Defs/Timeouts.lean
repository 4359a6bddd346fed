import DurableQueue.Defs.PersistFailure

/-! What `check_lease_timeouts` does to the leases, their tokens and the jobs. -/

namespace DurableQueue

namespace Coordinator

variable {X : Crates} {P : Fault → Prop} {config : RuntimeConfig} {env : Env}
  {id : JobId} {job : JobRecord} {s₀ s s' s'' : Coordinator}

inductive Settled (config : RuntimeConfig) (env : Env) (s s' : Coordinator) (id : JobId)
    (job : JobRecord) : Prop
  /-- all its attempts are used up -/
  | dead (h : job.spec.maxAttempts ≤ job.attempts)
      (hjob : s'.store.get id = some { job with state := .dead })
  /-- it waits for another attempt -/
  | waits (h : job.attempts < job.spec.maxAttempts)
      (hjob : s'.store.get id = some { job with state := .retryWaiting })
      {t : Nat} (ht : s.tick ≤ t) (rng : Rng) (wall : UnixMillis)
      (hentry : ⟨(env.instant t).add (config.retry.delayWithRng job.attempts rng), wall, id⟩ ∈
        s'.retryQueue)
  /-- the record that says so could not be persisted -/
  | strands {r : WalRecord} (hr : r ∈ newlyFailed s s') (hid : r.jobId = id)
      (hjob : s'.store.get id = some job)

structure Expires (config : RuntimeConfig) (env : Env) (ids : List JobId) (s s' : Coordinator) :
    Prop where
  tick : s.tick ≤ s'.tick
  leases : ∀ id, s'.leases.get id = if id ∈ ids then none else s.leases.get id
  cancelled : s'.cancelled = s.cancelled ++
    (ids.filterMap s.leases.get).map (·.leaseId)
  retryQueue : ∀ e ∈ s.retryQueue, e ∈ s'.retryQueue
  failed : ∃ l, s'.failed = s.failed ++ l
  other : ∀ id ∉ ids, s'.store.get id = s.store.get id
  settled : ∀ id ∈ ids, ∀ job, s.store.get id = some job → Settled config env s s' id job

/-! ## One lease -/

structure Touches (id : JobId) (s s' : Coordinator) : Prop where
  tick : s.tick ≤ s'.tick
  leases : s'.leases = s.leases
  cancelled : s'.cancelled = s.cancelled
  retryQueue : ∀ e ∈ s.retryQueue, e ∈ s'.retryQueue
  failed : ∃ l, s'.failed = s.failed ++ l
  other : ∀ id', id' ≠ id → s'.store.get id' = s.store.get id'

theorem Touches.refuse {r : WalRecord} {e : WalError} {st : Storage} {t : Nat} (ht : s.tick ≤ t) :
    Touches id s (s.refuse r e st t) :=
  ⟨ht, rfl, rfl, fun _ h => h, ⟨[r], failed_refuse r e st t s⟩, fun _ _ => rfl⟩

theorem Settled.refused {s₁ : Coordinator} {r : WalRecord} {e : WalError} {st : Storage} {t : Nat}
    (hfailed : s₁.failed = s.failed) (hid : r.jobId = id) (hjob : s₁.store.get id = some job) :
    Settled config env s (s₁.refuse r e st t) id job := by
  refine .strands ?_ hid hjob
  rw [newlyFailed_append ((failed_refuse r e st t s₁).trans (by rw [hfailed]))]
  exact List.mem_singleton_self r

theorem get_apply_other {r : WalRecord} {id' : JobId} (h : id' ≠ r.jobId) (store : MemoryStore) :
    (store.applyRecordForRecovery r).get id' = store.get id' := by
  rw [MemoryStore.get_applyRecordForRecovery, if_neg h]

theorem get_apply_self {r : WalRecord} {store : MemoryStore} (h : store.get r.jobId = some job) :
    (store.applyRecordForRecovery r).get r.jobId = some (r.update job) := by
  rw [MemoryStore.get_applyRecordForRecovery, if_pos rfl, h, WalRecord.effect_some]

theorem deadJob_settles (l : LeaseId) (hjob : s.store.get id = some job)
    (hstate : job.state = .running) (h : job.spec.maxAttempts ≤ job.attempts) :
    wp (deadJob X env id l job.queue)
      (fun _ s' => Touches id s s' ∧ Settled config env s s' id job) (fun _ _ => True) s := by
  refine (wp_bind _ _).mpr (wp_draw.mpr ((wp_bind _ _).mpr (wp_persist (P := fun _ => True)
    (fun _ => trivial) ?_ ?_ fun _ _ _ => trivial)))
  · intro fault seq st _ _
    let r : WalRecord := .jobDead id l (env.wall s.tick)
    have happly : s.store.applyRecord r = .ok (s.store.applyRecordForRecovery r) :=
      MemoryStore.applyRecord_eq hjob (by rw [hstate]; rfl)
    refine (wp_bind _ _).mpr (wp_applyRecord_ok happly ((wp_modify _).mpr ⟨?_, ?_⟩))
    · refine ⟨Nat.le_add_right _ 2, rfl, rfl, fun _ h => h, ⟨[], ?_⟩,
        fun id' hid' => get_apply_other hid' _⟩
      simp [failed, exposeFinish, removePermit, updateStats, updateQueue, Event.asFailed]
    · exact .dead h (get_apply_self (r := r) hjob)
  · intro fault e st _ _
    exact ⟨.refuse (Nat.le_add_right _ 2), .refused rfl rfl hjob⟩

theorem scheduleRetry_settles (l : LeaseId) (hjob : s.store.get id = some job)
    (hstate : job.state = .running) (h : job.attempts < job.spec.maxAttempts) :
    wp (scheduleRetry X config env id l job.queue job.attempts)
      (fun _ s' => Touches id s s' ∧ Settled config env s s' id job) (fun _ _ => True) s := by
  refine (wp_bind _ _).mpr (wp_draw.mpr ((wp_bind _ _).mpr (wp_draw.mpr ((wp_bind _ _).mpr
    (wp_persist (P := fun _ => True) (fun _ => trivial) ?_ ?_ fun _ _ _ => trivial)))))
  · intro fault seq st _ _
    set r : WalRecord := .jobRetryScheduled id l job.attempts _ with hr
    have happly : s.store.applyRecord r = .ok (s.store.applyRecordForRecovery r) :=
      MemoryStore.applyRecord_eq hjob (by rw [hstate]; rfl)
    refine (wp_bind _ _).mpr (wp_applyRecord_ok happly ?_)
    refine (wp_bind _ _).mpr (wp_nowPlus (fun _ => (wp_modify _).mpr ⟨?_, ?_⟩) fun _ => trivial)
    · refine ⟨Nat.le_add_right _ 4, rfl, rfl, fun _ h => List.mem_cons_of_mem _ h, ⟨[], ?_⟩,
        fun id' hid' => get_apply_other hid' _⟩
      simp [failed, exposeRetry, updateStats, updateQueue, Event.asFailed]
    · exact .waits h (get_apply_self (r := r) hjob) (Nat.le_add_right _ 3) _ _ (List.mem_cons_self ..)
  · intro fault e st _ _
    exact ⟨.refuse (Nat.le_add_right _ 3), .refused rfl rfl hjob⟩

theorem retryOrDie_settles (l : LeaseId) (hjob : s.store.get id = some job)
    (hstate : job.state = .running) :
    wp (retryOrDie X config env id l job)
      (fun _ s' => Touches id s s' ∧ Settled config env s s' id job) (fun _ _ => True) s := by
  unfold retryOrDie
  split
  · rename_i h
    exact deadJob_settles l hjob hstate h
  · rename_i h
    exact scheduleRetry_settles l hjob hstate (UInt32.not_le.mp h)

theorem expireLease_expires (l : LeaseId) {lease : ActiveLease}
    (hlease : s.leases.get id = some lease) (hjob : s.store.get id = some job)
    (hstate : job.state = .running) :
    wp (expireLease X config env id l) (fun _ s' => Expires config env [id] s s')
      (fun _ _ => True) s := by
  refine (wp_bind _ _).mpr (wp_get.mpr ?_)
  rw [hlease, if_neg (by simp)]
  refine (wp_bind _ _).mpr ((wp_modify _).mpr ((wp_bind _ _).mpr (wp_get.mpr ?_)))
  have hjob₁ : (s.cancelLease id).store.get id = some job := hjob
  rw [hjob₁]
  refine wp_mono (retryOrDie_settles l hjob₁ hstate) ?_ fun _ _ h => h
  rintro _ s' ⟨htouch, hsettled⟩
  have hfailed : (s.cancelLease id).failed = s.failed := failed_cancelLease id s
  obtain ⟨fs, hfs⟩ := htouch.failed
  rw [hfailed] at hfs
  refine ⟨htouch.tick, fun id' => ?_, ?_, htouch.retryQueue, ⟨fs, hfs⟩, fun id' hid' => ?_, ?_⟩
  · rw [htouch.leases, get_cancelLease]
    simp only [List.mem_singleton]
  · rw [htouch.cancelled]
    simp [cancelLease, hlease]
  · exact htouch.other id' fun h => hid' (List.mem_singleton.mpr h)
  · intro id' hid' job' hjob'
    rw [List.mem_singleton.mp hid'] at hjob' ⊢
    rw [hjob] at hjob'
    cases hjob'
    have hsame : newlyFailed (s.cancelLease id) s' = newlyFailed s s' := by
      rw [newlyFailed, hfailed, newlyFailed]
    cases hsettled with
    | dead h hjob => exact .dead h hjob
    | waits h hjob ht rng wall hentry => exact .waits h hjob ht rng wall hentry
    | strands hr hid hjob => exact .strands (hsame ▸ hr) hid hjob

/-! ## All expired leases -/

theorem newlyFailed_trans {l l' : List WalRecord} (h : s'.failed = s.failed ++ l)
    (h' : s''.failed = s'.failed ++ l') :
    newlyFailed s s'' = newlyFailed s s' ++ newlyFailed s' s'' := by
  rw [newlyFailed_append h, newlyFailed_append h',
    newlyFailed_append (by rw [h', h, List.append_assoc])]

theorem Expires.refl (s : Coordinator) : Expires config env [] s s :=
  ⟨le_rfl, fun _ => rfl, by simp, fun _ h => h, ⟨[], by simp⟩, fun _ _ => rfl,
    fun _ h => absurd h List.not_mem_nil⟩

theorem Expires.cons {ids : List JobId} (hid : id ∉ ids) (h : Expires config env [id] s s')
    (h' : Expires config env ids s' s'') : Expires config env (id :: ids) s s'' := by
  obtain ⟨l, hl⟩ := h.failed
  obtain ⟨l', hl'⟩ := h'.failed
  have hfailed := newlyFailed_trans hl hl'
  have hlater : ∀ id' ∈ ids, id' ∉ [id] := by
    intro id' hid' heq
    exact hid (List.mem_singleton.mp heq ▸ hid')
  refine ⟨h.tick.trans h'.tick, fun id' => ?_, ?_,
    fun e he => h'.retryQueue e (h.retryQueue e he),
    ⟨l ++ l', by rw [hl', hl, List.append_assoc]⟩, fun id' hid' => ?_, ?_⟩
  · rw [h'.leases, h.leases]
    by_cases heq : id' = id <;> by_cases hmem : id' ∈ ids <;> simp [heq, hmem]
  · have hsame : ids.filterMap s'.leases.get = ids.filterMap s.leases.get := by
      refine List.filterMap_congr fun id' hid' => ?_
      rw [h.leases, if_neg (hlater id' hid')]
    rw [h'.cancelled, h.cancelled, hsame, List.append_assoc, ← List.map_append,
      ← List.filterMap_append, List.singleton_append]
  · rw [List.mem_cons, not_or] at hid'
    rw [h'.other id' hid'.2, h.other id' (by simpa using hid'.1)]
  · intro id' hid' job hjob
    rcases List.mem_cons.mp hid' with rfl | hmem
    · -- settled by the first round, and left alone by the others
      have hsame := h'.other id' hid
      cases h.settled id' (List.mem_singleton_self id') job hjob with
      | dead hmax hjob => exact .dead hmax (hsame.trans hjob)
      | waits hlt hjob ht rng wall hentry =>
        exact .waits hlt (hsame.trans hjob) ht rng wall (h'.retryQueue _ hentry)
      | strands hr hid hjob =>
        exact .strands (hfailed ▸ List.mem_append_left _ hr) hid (hsame.trans hjob)
    · have hjob' : s'.store.get id' = some job := (h.other id' (hlater id' hmem)).trans hjob
      cases h'.settled id' hmem job hjob' with
      | dead hmax hjob => exact .dead hmax hjob
      | waits hlt hjob ht rng wall hentry =>
        exact .waits hlt hjob (h.tick.trans ht) rng wall hentry
      | strands hr hid hjob => exact .strands (hfailed ▸ List.mem_append_right _ hr) hid hjob

theorem expireLeases_expires {timedOut : List (JobId × LeaseId)}
    (hnodup : (timedOut.map Prod.fst).Nodup)
    (hrunning : ∀ id ∈ timedOut.map Prod.fst, (s.leases.get id).isSome ∧
      ∃ job, s.store.get id = some job ∧ job.state = .running) :
    wp (expireLeases X config env timedOut)
      (fun _ s' => Expires config env (timedOut.map Prod.fst) s s') (fun _ _ => True) s := by
  induction timedOut generalizing s with
  | nil => exact .refl s
  | cons head rest ih =>
    obtain ⟨id, l⟩ := head
    rw [List.map_cons, List.nodup_cons] at hnodup
    obtain ⟨hlease, job, hjob, hstate⟩ := hrunning id (List.mem_cons_self ..)
    obtain ⟨lease, hlease⟩ := Option.isSome_iff_exists.mp hlease
    refine (wp_bind _ _).mpr (wp_mono (expireLease_expires l hlease hjob hstate) ?_ fun _ _ h => h)
    intro _ s₁ h₁
    refine wp_mono (ih hnodup.2 fun id' hid' => ?_) (fun _ s' h' => h₁.cons hnodup.1 h')
      fun _ _ h => h
    have hother : id' ∉ [id] := fun h => hnodup.1 (List.mem_singleton.mp h ▸ hid')
    rw [h₁.leases, if_neg hother, h₁.other id' hother]
    exact hrunning id' (List.mem_cons_of_mem _ hid')

def expiredIds (order : IterOrder) (now : Instant) (s : Coordinator) : List JobId :=
  ((order.arrange s.leases.toList).filter fun (_, lease) =>
    lease.deadline.nanos ≤ now.nanos).map Prod.fst

theorem mem_expiredIds {order : IterOrder} {now : Instant} :
    id ∈ expiredIds order now s ↔
      ∃ lease, s.leases.get id = some lease ∧ lease.deadline.nanos ≤ now.nanos := by
  simp [expiredIds]

theorem nodup_expiredIds (order : IterOrder) (now : Instant) (s : Coordinator) :
    (expiredIds order now s).Nodup :=
  (order.nodup_map_arrange.mpr s.leases.nodup_keys_toList).sublist (List.filter_sublist.map _)

theorem Expires.of_tick {ids : List JobId} {t : Nat} (ht : s.tick ≤ t)
    (h : Expires config env ids { s with tick := t } s') : Expires config env ids s s' := by
  refine ⟨ht.trans h.tick, h.leases, h.cancelled, h.retryQueue, h.failed, h.other, ?_⟩
  intro id hid job hjob
  cases h.settled id hid job hjob with
  | dead hmax hjob => exact .dead hmax hjob
  | waits hlt hjob ht' rng wall hentry => exact .waits hlt hjob (ht.trans ht') rng wall hentry
  | strands hr hid hjob => exact .strands hr hid hjob

theorem checkLeaseTimeouts_expires (hs : Placement config s) :
    wp (checkLeaseTimeouts X config env)
      (fun _ s' => ∃ order, Expires config env (expiredIds order (env.instant s.tick) s) s s')
      (fun _ _ => True) s := by
  refine (wp_bind _ _).mpr (wp_draw.mpr ((wp_bind _ _).mpr (wp_draw.mpr
    ((wp_bind _ _).mpr (wp_get.mpr ?_)))))
  set order := env.order (s.tick + 1)
  set timedOut := ((order.arrange s.leases.toList).filter fun (_, lease) =>
    lease.deadline.nanos ≤ (env.instant s.tick).nanos).map
      fun (jobId, lease) => (jobId, lease.leaseId) with htimedOut
  have hids : timedOut.map Prod.fst = expiredIds order (env.instant s.tick) s := by
    rw [htimedOut, List.map_map]
    rfl
  have hexpires : wp (expireLeases X config env timedOut)
      (fun _ s' => Expires config env (timedOut.map Prod.fst) { s with tick := s.tick + 2 } s')
      (fun _ _ => True) { s with tick := s.tick + 2 } := by
    refine expireLeases_expires (hids ▸ nodup_expiredIds order _ s) fun id hid => ?_
    rw [hids, mem_expiredIds] at hid
    obtain ⟨lease, hlease, _⟩ := hid
    exact ⟨by rw [hlease]; rfl, hs.running_of_lease hlease⟩
  refine wp_mono hexpires (fun _ s' h => ⟨order, ?_⟩) fun _ _ h => h
  exact hids ▸ h.of_tick (Nat.le_add_right _ 2)

/-- `check_lease_timeouts` ends exactly the leases whose deadline has come and cancels exactly
their tokens.  Each job that loses its lease is dead if it has had all its attempts, and waits
for another one otherwise, unless the record of this could not be persisted.  All other jobs
and leases are left alone. -/
theorem lease_timeouts_exact (hstart : Started X config s₀) (hrun : Run X P config s₀ s)
    (hexec : exec X config env .checkLeaseTimeouts s = .ok () s') :
    let expired : JobId → ActiveLease → Prop := fun id lease =>
      s.leases.get id = some lease ∧ lease.deadline.nanos ≤ (env.instant s.tick).nanos
    (∀ id lease, s'.leases.get id = some lease ↔
      s.leases.get id = some lease ∧ ¬expired id lease) ∧
    (∀ l, l ∈ s'.cancelled ↔ l ∈ s.cancelled ∨ ∃ id lease, expired id lease ∧ lease.leaseId = l) ∧
    (∀ id, (∀ lease, ¬expired id lease) → s'.store.get id = s.store.get id) ∧
    ∀ id lease, expired id lease →
      ∃ job, s.store.get id = some job ∧ Settled config env s s' id job := by
  intro expired
  have hs := hstart.run_placement hrun
  obtain ⟨order, h⟩ := wp_ok (checkLeaseTimeouts_expires hs) hexec
  have hmem : ∀ id, id ∈ expiredIds order (env.instant s.tick) s ↔ ∃ lease, expired id lease :=
    fun id => mem_expiredIds
  refine ⟨fun id lease => ?_, fun l => ?_, fun id hid => ?_, fun id lease hlease => ?_⟩
  · rw [h.leases]
    split
    · rename_i hid
      obtain ⟨lease', hlease'⟩ := (hmem id).mp hid
      constructor
      · intro hnone
        cases hnone
      · rintro ⟨hget, hnot⟩
        have heq : lease' = lease := Option.some.inj (hlease'.1.symm.trans hget)
        exact absurd (heq ▸ hlease') hnot
    · rename_i hid
      exact ⟨fun hget => ⟨hget, fun hexp => hid ((hmem id).mpr ⟨lease, hexp⟩)⟩, And.left⟩
  · rw [h.cancelled, List.mem_append, List.mem_map]
    refine or_congr_right ⟨?_, ?_⟩
    · rintro ⟨lease, hlease, rfl⟩
      obtain ⟨id, hid, hget⟩ := List.mem_filterMap.mp hlease
      obtain ⟨lease', hlease'⟩ := (hmem id).mp hid
      have heq : lease' = lease := Option.some.inj (hlease'.1.symm.trans hget)
      exact ⟨id, lease, heq ▸ hlease', rfl⟩
    · rintro ⟨id, lease, hexp, rfl⟩
      exact ⟨lease, List.mem_filterMap.mpr ⟨id, (hmem id).mpr ⟨lease, hexp⟩, hexp.1⟩, rfl⟩
  · refine h.other id fun hmem' => ?_
    obtain ⟨lease, hexp⟩ := (hmem id).mp hmem'
    exact hid lease hexp
  · obtain ⟨job, hjob, _⟩ := hs.running_of_lease hlease.1
    exact ⟨job, hjob, h.settled id ((hmem id).mpr ⟨lease, hlease⟩) job hjob⟩

/-- Half a minute after it was leased, the job waits for its second attempt. -/
theorem lease_timeouts_exact_mail : ∃ s', exec Postcard.crates mailConfig
      { mailEnv ⟨2⟩ .none with instant := fun _ => ⟨30 * 10 ^ 9⟩ } .checkLeaseTimeouts
      mailLeased = .ok () s' ∧
    (∀ lease, s'.leases.get ⟨1⟩ ≠ some lease) ∧ (⟨1⟩ : LeaseId) ∈ s'.cancelled ∧
    ∃ job, mailLeased.store.get ⟨1⟩ = some job ∧ Settled mailConfig
      { mailEnv ⟨2⟩ .none with instant := fun _ => ⟨30 * 10 ^ 9⟩ } mailLeased s' ⟨1⟩ job := by
  let env : Env := { mailEnv ⟨2⟩ .none with instant := fun _ => ⟨30 * 10 ^ 9⟩ }
  have hexec : exec Postcard.crates mailConfig env .checkLeaseTimeouts mailLeased = .ok () _ :=
    eq_ok_of_value (by decide +kernel)
  obtain ⟨hleases, htokens, _, hsettled⟩ := lease_timeouts_exact (.fresh mailBoot _ _)
    (mailLeased_run (· = .none) rfl) hexec
  have hlease : mailLeased.leases.get ⟨1⟩ = some ⟨⟨1⟩, ⟨30 * 10 ^ 9⟩⟩ := by decide +kernel
  refine ⟨_, hexec, fun lease h => ?_, ?_, hsettled ⟨1⟩ _ ⟨hlease, le_rfl⟩⟩
  · obtain ⟨hget, hnot⟩ := (hleases ⟨1⟩ lease).mp h
    rw [hlease] at hget
    cases hget
    exact hnot ⟨hlease, le_rfl⟩
  · exact (htokens ⟨1⟩).mpr (Or.inr ⟨⟨1⟩, _, ⟨hlease, le_rfl⟩, rfl⟩)

end Coordinator

end DurableQueue
