import DurableQueue.Defs.PersistFailure
import DurableQueue.Defs.Replies
import DurableQueue.Defs.SystemLaws

/-! How leases come and go on the coordinator's side: each one it grants goes to one worker
with the job, and ends with that worker's outcome or with the cancellation of its token. -/

namespace DurableQueue

variable {X : Crates} {config : RuntimeConfig}

theorem replayed_keyed {log : List WalRecord} {id : JobId} {job : JobRecord}
    (h : (replayed log).get id = some job) : job.id = id := by
  induction log using List.reverseRecOn generalizing job with
  | nil => cases h
  | append_singleton log r ih =>
    rw [replayed, MemoryStore.replay_snoc, MemoryStore.get_applyRecordForRecovery] at h
    split at h
    · rename_i hid
      cases r with
      | jobSubmitted =>
        cases h
        exact hid.symm
      | jobLeased | jobRetryScheduled | jobCompleted | jobDead | jobCancelled =>
        obtain ⟨job', hget, rfl⟩ := Option.map_eq_some_iff.mp h
        have hkey : job'.id = id := ih hget
        exact hkey
    · exact ih h

open Coordinator in
theorem Reachable.boots (hX : X.Lawful) (hC : X.Compact) {past : List Event}
    {s₀ s : Coordinator} (h : Reachable X Fault.Clean config (.up past s₀ s)) :
    Boots X config s₀ ∧ Run X Fault.Clean config s₀ s := by
  generalize hsys : Sys.up past s₀ s = sys at h
  induction h generalizing past s₀ s with
  | refl => cases hsys
  | tail hprev hstep ih =>
    subst hsys
    cases hstep with
    | boot hstart =>
      have hlegal := Reachable.legal hX hC hprev
      exact ⟨.wal _ _ hstart hlegal.nodup, .refl⟩
    | proc hproc =>
      obtain ⟨hboots, hrun⟩ := ih rfl
      exact ⟨hboots, hrun.tail hproc⟩

open Coordinator in
theorem Reachable.started (hX : X.Lawful) (hC : X.Compact) {past : List Event}
    {s₀ s : Coordinator} (h : Reachable X Fault.Clean config (.up past s₀ s)) :
    Started X config s₀ ∧ Run X Fault.Clean config s₀ s :=
  (h.boots hX hC).imp_left Boots.started

namespace Coordinator

variable {clock : Nat → Instant} {D : Dealing → Prop} {env : Env} {base : List WalRecord}
  {past : List LeaseId} {s₀ s s' s'' : Coordinator}

theorem Logged.keyed (h : Logged X config base s) {id : JobId} {job : JobRecord}
    (hget : s.store.get id = some job) : job.id = id := by
  rcases h.store.get_some hget with hr | ⟨_, hr⟩
  · exact replayed_keyed hr
  · have hkey : ({ job with state := .retryWaiting } : JobRecord).id = id := replayed_keyed hr
    exact hkey

/-! ## Operations that grant no lease -/

/-- No lease is granted and no job handed out.  A lease that ends is the one that was settled,
or its token has been cancelled. -/
structure Withdraws (settled : Option (JobId × LeaseId)) (s s' : Coordinator) : Prop where
  handed : s'.handed = s.handed
  nextLeaseEpoch : s'.nextLeaseEpoch = s.nextLeaseEpoch
  leases : LeasesShrink s s'
  cancelled : s.cancelled ⊆ s'.cancelled
  ended : ∀ id lease, s.leases.get id = some lease →
    s'.leases.get id = some lease ∨ lease.leaseId ∈ s'.cancelled ∨
      settled = some (id, lease.leaseId)

namespace Withdraws

theorem of_same (hhanded : s'.handed = s.handed) (hepoch : s'.nextLeaseEpoch = s.nextLeaseEpoch)
    (hleases : s'.leases = s.leases) (hcancelled : s'.cancelled = s.cancelled) :
    Withdraws none s s' where
  handed := hhanded
  nextLeaseEpoch := hepoch
  leases id l hl := by rwa [← hleases]
  cancelled := hcancelled ▸ List.Subset.refl _
  ended id lease hl := by
    rw [hleases]
    exact Or.inl hl

theorem trans {settled : Option (JobId × LeaseId)} (h : Withdraws settled s s')
    (h' : Withdraws none s' s'') : Withdraws settled s s'' where
  handed := h'.handed.trans h.handed
  nextLeaseEpoch := h'.nextLeaseEpoch.trans h.nextLeaseEpoch
  leases id l hl := h.leases id l (h'.leases id l hl)
  cancelled := List.Subset.trans h.cancelled h'.cancelled
  ended id lease hl := by
    rcases h.ended id lease hl with hl' | hl' | hl'
    · rcases h'.ended id lease hl' with hl'' | hl'' | hl''
      · exact Or.inl hl''
      · exact Or.inr (Or.inl hl'')
      · cases hl''
    · exact Or.inr (Or.inl (h'.cancelled hl'))
    · exact Or.inr (Or.inr hl')

theorem cancelLease (id : JobId) : Withdraws none s (s.cancelLease id) where
  handed := rfl
  nextLeaseEpoch := rfl
  leases := removeLease_shrinks id s
  cancelled := by
    unfold Coordinator.cancelLease
    cases s.leases.get id with
    | some lease => exact List.subset_append_left _ _
    | none => exact List.Subset.refl _
  ended id' lease hl := by
    change (s.leases.erase id).get id' = some lease ∨ _
    rw [HashMap.get_erase]
    split
    · rename_i heq
      subst heq
      refine Or.inr (Or.inl ?_)
      simp [Coordinator.cancelLease, hl]
    · exact Or.inl hl

end Withdraws

theorem handed_append_home (s : Coordinator) (workers : List Sender) :
    handed { s with sent := s.sent ++ workers.map (fun worker => (worker, .work none)) } =
      s.handed := by
  simp [handed, List.filterMap_map]

theorem handed_completeShutdown (s : Coordinator) : s.completeShutdown.handed = s.handed := by
  unfold completeShutdown
  cases s.shutdownReply with
  | none => rfl
  | some reply => simp [handed]

theorem Act.withdraws (hgrant : ¬D .grant) (hsettle : ¬D .settle) (h : Act config clock D s s') :
    Withdraws none s s' := by
  cases h with
  | silent h =>
    exact .of_same (by rw [handed, h.sent, handed]) h.nextLeaseEpoch h.leases h.cancelled
  | grant hD | hand hD => exact absurd hD hgrant
  | removeLease hD => exact absurd hD hsettle
  | cancelLease hd id => exact .cancelLease id
  | schedule | popRetry | exit => exact .of_same rfl rfl rfl rfl
  | drain => exact .of_same (handed_append_home s _) rfl rfl rfl
  | completeShutdown => exact .of_same (handed_completeShutdown s) rfl rfl rfl

theorem Acts.withdraws (hgrant : ¬D .grant) (hsettle : ¬D .settle)
    (h : Acts config clock D s s') : Withdraws none s s' := by
  induction h with
  | refl => exact .of_same rfl rfl rfl rfl
  | tail _ hact ih => exact ih.trans (hact.withdraws hgrant hsettle)

theorem Receives.withdraws {awaits : Option (Sender × Reply.Kind)}
    (h : Receives config clock s awaits s') (hkind : ∀ reply, awaits ≠ some (reply, .work)) :
    Withdraws none s s' := by
  cases h with
  | nothing | keep => exact .of_same rfl rfl rfl rfl
  | park reply => exact absurd rfl (hkind reply)
  | answer reply msg =>
    refine .of_same ?_ rfl rfl rfl
    cases msg with
    | work job => exact absurd rfl (hkind reply)
    | job | stats | done => simp [handed, send]

end Coordinator

def WalRecord.grant? : WalRecord → Option (JobId × LeaseId × UInt32)
  | .jobLeased id leaseId attempt _ => some (id, leaseId, attempt)
  | _ => none

def LeasedJob.grant (job : LeasedJob) : JobId × LeaseId × UInt32 :=
  (job.context.id, job.leaseId, job.context.attempt)

def JobRecord.context (job : JobRecord) (leaseId : LeaseId) : JobContext where
  id := job.id
  queue := job.queue
  payload := job.spec.payload
  attempt := job.attempts
  maxAttempts := job.spec.maxAttempts
  cancellation := leaseId

def Command.outcome? : Command → Option (JobId × LeaseId)
  | .workerOutcome id leaseId _ => some (id, leaseId)
  | _ => none

def Op.settled (op : Op) : Option (JobId × LeaseId) := op.command?.bind Command.outcome?

namespace Coordinator

variable {clock : Nat → Instant} {D : Dealing → Prop} {env : Env} {base : List WalRecord}
  {past : List LeaseId} {s₀ s s' s'' : Coordinator}

theorem doWorkerOutcome_withdraws (id : JobId) (l : LeaseId) (outcome : WorkerOutcome) :
    wp (doWorkerOutcome X config env id l outcome)
      (fun _ s' => Withdraws (some (id, l)) s s' ∧
        ∀ lease, s'.leases.get id = some lease → lease.leaseId ≠ l) (fun _ _ => True) s := by
  have hnone : Withdraws none s s.staleOutcome := .of_same rfl rfl rfl rfl
  have hsame : Withdraws (some (id, l)) s s.staleOutcome :=
    { hnone with ended := fun _ _ hl => Or.inl hl }
  refine (wp_bind _ _).mpr (wp_get.mpr ?_)
  cases hl : s.leases.get id with
  | none =>
    refine ⟨hsame, fun lease hlease => ?_⟩
    rw [show s.staleOutcome.leases = s.leases from rfl, hl] at hlease
    cases hlease
  | some lease =>
    dsimp only
    split
    · rename_i hne
      refine ⟨hsame, fun lease' hlease => ?_⟩
      rw [show s.staleOutcome.leases = s.leases from rfl, hl] at hlease
      cases hlease
      exact hne
    rename_i heq
    rw [ne_eq, not_not] at heq
    subst heq
    have hremove : Withdraws (some (id, lease.leaseId)) s (s.removeLease id) := by
      refine ⟨rfl, rfl, removeLease_shrinks id s, List.Subset.refl _, fun id' lease' hl' => ?_⟩
      change (s.leases.erase id).get id' = some lease' ∨ _
      rw [HashMap.get_erase]
      split
      · rename_i hid
        subst hid
        rw [hl] at hl'
        cases hl'
        exact Or.inr (Or.inr rfl)
      · exact Or.inl hl'
    -- what follows deals with no lease
    have hrest : ∀ {m : CoordM Unit},
        (∀ s₁, ActsOnly config env.instant (fun _ => False) m s₁ s₁) →
        wp m (fun _ s' => Withdraws (some (id, lease.leaseId)) s s' ∧
          ∀ lease', s'.leases.get id = some lease' → lease'.leaseId ≠ lease.leaseId)
          (fun _ _ => True) (s.removeLease id) := by
      intro m hm
      refine wp_mono (hm _) (fun _ s' hs' => ?_) fun _ _ _ => trivial
      have hwithdraws := Acts.withdraws (fun h => h) (fun h => h) hs'.1
      refine ⟨hremove.trans hwithdraws, fun lease' hl' => ?_⟩
      have hgone := hwithdraws.leases id lease' hl'
      change (s.leases.erase id).get id = some lease' at hgone
      rw [HashMap.get_erase_self] at hgone
      cases hgone
    refine (wp_bind _ _).mpr ((wp_modify _).mpr ((wp_bind _ _).mpr (wp_get.mpr ?_)))
    cases (s.removeLease id).store.get id with
    | none => exact hrest fun _ => .of_pure _
    | some job =>
      cases outcome with
      | success | fatal => exact hrest fun _ => finishJob_acts ..
      | retryable | panic => exact hrest fun _ => retryOrDie_acts ..

theorem exec_withdraws (hidle : Idle s) {op : Op} (hop : op.leases = false)
    (h : exec X config env op s = .ok () s') :
    Withdraws op.settled s s' ∧ ∀ id l, op.settled = some (id, l) →
      ∀ lease, s'.leases.get id = some lease → lease.leaseId ≠ l := by
  have hwithdraws : ¬op.Deals .grant → ¬op.Deals .settle →
      (∀ reply, op.awaits ≠ some (reply, .work)) → Withdraws none s s' := by
    intro hgrant hsettle hkind
    obtain ⟨s₁, hacts, hreceives⟩ := wp_ok (exec_receives hidle op) h
    exact (hacts.withdraws hgrant hsettle).trans (hreceives.withdraws hkind)
  cases op with
  | processDueRetries | hangUp | checkLeaseTimeouts | checkExit =>
    exact ⟨hwithdraws (by simp [Op.Deals]) (by simp [Op.Deals]) fun _ h => (nomatch h),
      fun _ _ h => nomatch h⟩
  | tryDispatchParkedWorkers => cases hop
  | handle cmd =>
    cases cmd with
    | submit | fetchWork => cases hop
    | status | stats | shutdown | cancel =>
      exact ⟨hwithdraws (by simp [Op.Deals]) (by simp [Op.Deals]) fun _ h => (nomatch h),
        fun _ _ h => nomatch h⟩
    | workerOutcome id l outcome =>
      obtain ⟨hwithdraws, hgone⟩ := wp_ok (doWorkerOutcome_withdraws id l outcome) h
      refine ⟨hwithdraws, fun id' l' heq => ?_⟩
      cases heq
      exact hgone

/-! ## Operations that grant leases -/

def granted (s : Coordinator) : List (JobId × LeaseId × UInt32) := s.acked.filterMap WalRecord.grant?

inductive Grants (s s' : Coordinator) : Option LeasedJob → Prop
  | nothing (hleases : s'.leases = s.leases) (hepoch : s'.nextLeaseEpoch = s.nextLeaseEpoch)
      (hcancelled : s'.cancelled = s.cancelled) (hgranted : s'.granted = s.granted) :
      Grants s s' none
  | lease {job : LeasedJob} (deadline : Instant) (record : JobRecord)
      (hlease : job.leaseId = ⟨s.nextLeaseEpoch⟩) (hfree : s.leases.get job.context.id = none)
      (hleases : s'.leases = s.leases.insert job.context.id ⟨job.leaseId, deadline⟩)
      (hepoch : s'.nextLeaseEpoch.toNat = s.nextLeaseEpoch.toNat + 1)
      (hcancelled : s'.cancelled = s.cancelled) (hgranted : s'.granted = s.granted ++ [job.grant])
      (hrecord : s'.store.get job.context.id = some record)
      (hcontext : job.context = record.context job.leaseId) : Grants s s' (some job)

theorem Grants.after {found : Option LeasedJob} (h : Grants s' s'' found)
    (hleases : s'.leases = s.leases) (hepoch : s'.nextLeaseEpoch = s.nextLeaseEpoch)
    (hcancelled : s'.cancelled = s.cancelled) (hgranted : s'.granted = s.granted) :
    Grants s s'' found := by
  cases h with
  | nothing hleases' hepoch' hcancelled' hgranted' =>
    exact .nothing (hleases'.trans hleases) (hepoch'.trans hepoch) (hcancelled'.trans hcancelled)
      (hgranted'.trans hgranted)
  | lease deadline record hlease hfree hleases' hepoch' hcancelled' hgranted' =>
    rw [hleases] at hfree hleases'
    rw [hepoch] at hlease hepoch'
    rw [hgranted] at hgranted'
    exact .lease deadline record hlease hfree hleases' hepoch' (hcancelled'.trans hcancelled)
      hgranted' ‹_› ‹_›

theorem tryLeaseLoop_grants (hP : ∀ t, Fault.Clean (env.fate t).fault)
    (hs : Sound X config base past s₀ s) {n : Nat} (hn : s.queueOrder.length = n) (rounds : Nat) :
    wp (tryLeaseLoop X config env n rounds) (fun found s' => Grants s s' found)
      (fun _ _ => True) s := by
  induction rounds generalizing s with
  | zero => exact .nothing rfl rfl rfl rfl
  | succ rounds ih =>
    have hs₁ : Sound X config base past s₀ { s with nextQueueIdx := (s.nextQueueIdx + 1) % n } :=
      hs.step (.quiet (advance_quiet hn))
    refine (wp_bind _ _).mpr (wp_get.mpr ((wp_bind _ _).mpr ((wp_set _).mpr ?_)))
    refine (wp_bind _ _).mpr (wp_intro ?_ fun _ _ _ => trivial)
    intro found s₂ hfound
    have hsteps := StepsOf.steps (wp_ok (leaseFront_logs hP (A := fun _ _ => True)
      (fun _ _ _ _ _ => trivial) _) hfound).1
    have hs₂ := hs₁.steps hsteps
    cases wp_ok (leaseFront_probe _) hfound with
    | skip => exact wp_mono (ih hs₁ hn) (fun _ _ h => h.after rfl rfl rfl rfl) fun _ _ h => h
    | refuse =>
      refine wp_mono (ih hs₂ hn) (fun _ _ h => h.after rfl rfl rfl ?_) fun _ _ h => h
      rw [granted, acked_refuse]
      rfl
    | @lease id qs job leasedAt deadline st t hqueue hfront hjob hstate =>
      have hid : job.id = id := hs.logged.keyed hjob
      have hfree : s.leases.get id = none := by
        refine hs.placement.not_leased (MemoryStore.place_of_get hjob) ?_
        rw [hstate]
        simp
      let r : WalRecord := .jobLeased id ⟨s.nextLeaseEpoch⟩ (job.attempts + 1) leasedAt
      refine .lease deadline (r.update job) rfl (hid ▸ hfree) (hid ▸ rfl) ?_ rfl ?_ ?_ rfl
      · exact checkedSucc_some (checkedSucc_of_lt hs.logged.epoch_lt)
      · rw [granted, acked_exposeLease, acked_commit, List.filterMap_append, hid]
        rfl
      · change (s.store.applyRecordForRecovery r).get job.id = _
        rw [MemoryStore.get_applyRecordForRecovery, if_pos (show job.id = r.jobId from hid), hid,
          hjob, WalRecord.effect_some]

theorem tryLeaseJob_grants (hP : ∀ t, Fault.Clean (env.fate t).fault)
    (hs : Sound X config base past s₀ s) {found : Option LeasedJob}
    (h : tryLeaseJob X config env s = .ok found s') :
    Grants s s' found ∧ s'.control = s.control ∧ Steps X Fault.Clean s s' := by
  have hgrants : wp (tryLeaseJob X config env) (fun found s' => Grants s s' found)
      (fun _ _ => True) s := (wp_bind _ _).mpr (wp_get.mpr (tryLeaseLoop_grants hP hs rfl _))
  exact ⟨wp_ok (Q := fun found s' => Grants s s' found) hgrants h, tryLeaseJob_keeps.ok h,
    StepsOf.steps (wp_ok (tryLeaseJob_logs hP (A := fun _ _ => True)
      (fun _ _ _ _ _ => trivial)) h).1⟩

/-- Nothing happens to the leases, or a worker that `R` names gets a job under a new one. -/
inductive HandsOut (X : Crates) (R : Sender → Prop) (s s' : Coordinator) : Prop
  | nothing (hsteps : Steps X Fault.Clean s s') (h : Grants s s' none)
      (hhanded : s'.handed = s.handed)
  | hand (hsteps : Steps X Fault.Clean s s') (reply : Sender) (job : LeasedJob) (hreply : R reply)
      (h : Grants s s' (some job)) (hhanded : s'.handed = s.handed ++ [(reply, job)])

abbrev OnlyHandsOut (X : Crates) (R : Sender → Prop) {α : Type} (m : CoordM α)
    (s : Coordinator) : Prop :=
  Does (HandsOut X R) (fun _ _ _ => True) m (fun _ _ => True) s s

theorem HandsOut.of_quiet {R : Sender → Prop} (h : Quiet s s')
    (hcancelled : s'.cancelled = s.cancelled) (hhanded : s'.handed = s.handed) :
    HandsOut X R s s' := by
  refine .nothing (.single (.quiet h)) (.nothing h.leases h.nextLeaseEpoch hcancelled ?_) hhanded
  rw [granted, acked, h.journal, granted, acked]

theorem HandsOut.of_found {R : Sender → Prop} {reply : Sender} {job : LeasedJob}
    {parked : List Sender} (hreply : R reply) (h : Grants s s' (some job))
    (hcontrol : s'.control = s.control) (hsteps : Steps X Fault.Clean s s') :
    HandsOut X R s (send reply (.work (some job)) { s' with parkedWorkers := parked }) := by
  have hhanded : s'.handed = s.handed := congrArg Control.handed hcontrol
  refine .hand (hsteps.tail (.quiet { Quiet.refl s' with })) reply job hreply ?_ ?_
  · cases h with
    | lease deadline record hlease hfree hleases hepoch hcancelled hgranted hrecord hcontext =>
      exact .lease deadline record hlease hfree hleases hepoch hcancelled hgranted hrecord hcontext
  · rw [← hhanded]
    simp [handed, send]

section

variable {R : Sender → Prop} (hP : ∀ t, Fault.Clean (env.fate t).fault)

include hP

theorem dispatchLoop_handsOut (hs : Sound X config base past s₀ s)
    (hR : ∀ reply ∈ s.parkedWorkers, R reply) (rounds : Nat) :
    OnlyHandsOut X R (dispatchLoop X config env rounds) s := by
  induction rounds generalizing s with
  | zero => exact .of_pure .refl trivial
  | succ rounds ih =>
    refine .get_bind ?_
    split
    · exact .of_pure .refl trivial
    rename_i hsome
    refine (wp_bind _ _).mpr (wp_intro (fun found s₁ hfound => ?_) fun _ _ _ => ⟨s, .refl, trivial⟩)
    obtain ⟨hgrants, hcontrol, hsteps⟩ := tryLeaseJob_grants hP hs hfound
    have hparked : s₁.parkedWorkers = s.parkedWorkers := congrArg Control.parked hcontrol
    cases found with
    | none => exact ⟨.single (.nothing hsteps hgrants (congrArg Control.handed hcontrol)), trivial⟩
    | some job =>
      refine Does.get_bind ?_
      cases hworkers : s₁.parkedWorkers with
      | nil =>
        rw [← hparked, hworkers] at hsome
        exact absurd rfl hsome
      | cons worker rest =>
        have hmem : ∀ reply ∈ worker :: rest, R reply := by rwa [← hworkers, hparked]
        have hstep : HandsOut X R s
            (send worker (.work (some job)) { s₁ with parkedWorkers := rest }) :=
          .of_found (hmem worker List.mem_cons_self) hgrants hcontrol hsteps
        refine Does.modify_bind (Does.after (.single hstep) (ih ?_ ?_))
        · exact (hs.steps hsteps).step (.quiet { Quiet.refl s₁ with })
        · exact fun reply hreply => hmem reply (List.mem_cons_of_mem _ hreply)

theorem tryDispatchParkedWorkers_handsOut (hs : Sound X config base past s₀ s)
    (hR : s.shuttingDown = false → ∀ reply ∈ s.parkedWorkers, R reply) :
    OnlyHandsOut X R (tryDispatchParkedWorkers X config env) s := by
  refine .get_bind ?_
  split
  · exact .of_pure .refl trivial
  · rename_i hup
    exact .get_bind (dispatchLoop_handsOut hP hs (hR (Bool.not_eq_true _ ▸ hup)) _)

theorem doFetchWork_handsOut (hs : Sound X config base past s₀ s) {reply : Sender}
    (hR : s.shuttingDown = false → R reply) :
    OnlyHandsOut X R (doFetchWork X config env reply) s := by
  refine .get_bind ?_
  split
  · refine .of_modify (.single (.of_quiet { Quiet.refl s with } rfl ?_)) trivial
    exact congrArg Control.handed (control_send_none reply s)
  rename_i hup
  refine (wp_bind _ _).mpr (wp_intro (fun found s₁ hfound => ?_) fun _ _ _ => ⟨s, .refl, trivial⟩)
  obtain ⟨hgrants, hcontrol, hsteps⟩ := tryLeaseJob_grants hP hs hfound
  cases found with
  | none =>
    have hnothing : HandsOut X R s s₁ := .nothing hsteps hgrants (congrArg Control.handed hcontrol)
    refine Does.of_modify ((Relation.ReflTransGen.single hnothing).tail ?_) trivial
    exact .of_quiet { Quiet.refl s₁ with } rfl rfl
  | some job =>
    have hfound : HandsOut X R s (send reply (.work (some job)) s₁) :=
      .of_found (hR (Bool.not_eq_true _ ▸ hup)) hgrants hcontrol hsteps
    exact Does.of_modify (.single hfound) trivial

theorem doSubmit_handsOut (hs : Sound X config base past s₀ s) {queue : QueueName}
    {permit : OwnedSemaphorePermit} (hfresh : ∀ t, s.store.get (env.uuid t) = none)
    (hpermit : permit ∈ s.inFlight) (hfor : permit.queue = queue.asStr) (spec : JobSpec)
    (hR : s.shuttingDown = false → ∀ reply ∈ s.parkedWorkers, R reply) :
    Does (HandsOut X R) (fun _ _ _ => True) (doSubmit X config env queue spec permit)
      (fun result s' => (∃ e, result = .error e) → permit ∈ s'.inFlight) s s := by
  refine .get_bind ?_
  split
  · exact .of_pure .refl fun _ => hpermit
  rename_i hqueue
  rw [Option.isNone_iff_eq_none, ← ne_eq, Option.ne_none_iff_isSome] at hqueue
  split
  · exact .of_pure .refl fun _ => hpermit
  have hs₁ : Sound X config base past s₀ { s with tick := s.tick + 1 + 1 } :=
    hs.step (.quiet { Quiet.refl s with })
  have hdraws : HandsOut X R s { s with tick := s.tick + 1 + 1 } :=
    .of_quiet { Quiet.refl s with } rfl rfl
  have hoffer : ∀ createdAt, Offers { s with tick := s.tick + 1 + 1 }
      (.jobSubmitted (env.uuid s.tick) queue spec createdAt) { s with tick := s.tick + 1 + 1 }
      (exposeSubmit (env.uuid s.tick) queue permit) :=
    fun _ => .submit hqueue (hfresh _) hpermit hfor
  refine (wp_bind _ _).mpr (wp_draw.mpr ((wp_bind _ _).mpr (wp_draw.mpr ?_)))
  refine (wp_bind _ _).mpr (wp_persist hP ?_ ?_ fun _ _ _ => ⟨s, .refl, trivial⟩)
  · intro fault seq st hfault hp
    refine (wp_bind _ _).mpr (wp_applyRecord_ok (hoffer _).applies ((wp_bind _ _).mpr (wp_get.mpr
      ((wp_bind _ _).mpr ((wp_modify _).mpr ?_)))))
    have hack := Step.ack (hoffer _) hfault hp (s.tick + 1 + 1 + 1)
    have hdispatch := tryDispatchParkedWorkers_handsOut hP (hs₁.step hack) hR
    refine (hdispatch.bind fun _ _ _ _ => .of_pure .refl (by simp)).after
      ((Relation.ReflTransGen.single hdraws).tail ?_)
    refine .nothing (.single hack) (.nothing rfl rfl rfl ?_) rfl
    rw [granted, (hoffer _).acked_ack, List.filterMap_append]
    exact List.append_nil _
  · intro fault e st hfault hp
    refine ⟨(Relation.ReflTransGen.single hdraws).tail (.nothing (.single (.nack (hoffer _) hfault hp
      (s.tick + 1 + 1 + 1))) (.nothing rfl rfl rfl ?_) rfl), fun _ => hpermit⟩
    rw [granted, (hoffer _).acked_nack]
    rfl

theorem exec_handsOut (hs : Sound X config base past s₀ s) {op : Op} (hop : op.leases)
    (henabled : op.Enabled Fault.Clean env s)
    (hR : s.shuttingDown = false → ∀ reply ∈ s.parkedWorkers, R reply)
    (hasks : s.shuttingDown = false → ∀ reply, op = .handle (.fetchWork reply) → R reply) :
    OnlyHandsOut X R (exec X config env op) s := by
  cases op with
  | processDueRetries | checkLeaseTimeouts | checkExit | hangUp => cases hop
  | tryDispatchParkedWorkers => exact tryDispatchParkedWorkers_handsOut hP hs hR
  | handle cmd =>
    cases cmd with
    | status | cancel | stats | workerOutcome | shutdown => cases hop
    | fetchWork reply => exact doFetchWork_handsOut hP hs fun hup => hasks hup reply rfl
    | submit queue spec permit reply =>
      obtain ⟨hpermit, hfor⟩ := henabled.holds
      have hsubmit : Does (HandsOut X R) (fun _ _ _ => True)
          (submitResult X config env queue spec permit)
          (fun result s' => (∃ e, result = .error e) → permit ∈ s'.inFlight) s s := by
        refine .get_bind ?_
        split
        · exact .of_pure .refl fun _ => hpermit
        · exact doSubmit_handsOut hP hs henabled.fresh hpermit hfor spec hR
      refine .bind hsubmit fun result s₁ _ hkept => .modify_bind ?_
      have hanswer : ∀ s₂ : Coordinator, (send reply (.job result) s₂).handed = s₂.handed :=
        fun s₂ => congrArg Control.handed (control_send_job reply result s₂)
      cases result with
      | ok job =>
        exact .of_modify (.single (.of_quiet { Quiet.refl s₁ with } rfl (hanswer _))) trivial
      | error e =>
        have hreturn : HandsOut X R s₁ (s₁.returnPermit permit) :=
          .nothing (.single (.returnPermit (hkept ⟨e, rfl⟩))) (.nothing rfl rfl rfl rfl) rfl
        refine .of_modify ((Relation.ReflTransGen.single hreturn).tail ?_) trivial
        exact .of_quiet { Quiet.refl (s₁.returnPermit permit) with } rfl (hanswer _)

end

/-! ## Parked workers -/

theorem Act.parkedWorkers_subset (h : Act config clock D s s') :
    s'.parkedWorkers ⊆ s.parkedWorkers := by
  cases h with
  | silent h => rw [h.parkedWorkers]; exact List.Subset.refl _
  | hand _ h => rw [h]; exact List.subset_cons_self _ _
  | drain => exact List.nil_subset _
  | grant | removeLease | cancelLease | schedule | popRetry | completeShutdown | exit =>
    exact List.Subset.refl _

theorem Acts.parkedWorkers_subset (h : Acts config clock D s s') :
    s'.parkedWorkers ⊆ s.parkedWorkers := by
  induction h with
  | refl => exact List.Subset.refl _
  | tail _ hact ih => exact List.Subset.trans hact.parkedWorkers_subset ih

theorem exec_parkedWorkers (hidle : Idle s) {op : Op} (h : exec X config env op s = .ok () s')
    {reply : Sender} (hmem : reply ∈ s'.parkedWorkers) :
    reply ∈ s.parkedWorkers ∨ op.awaits = some (reply, .work) := by
  obtain ⟨s₁, hacts, hreceives⟩ := wp_ok (exec_receives hidle op) h
  generalize op.awaits = awaits at hreceives
  cases hreceives with
  | nothing | answer | keep => exact Or.inl (hacts.parkedWorkers_subset hmem)
  | park reply' =>
    rcases List.mem_append.mp hmem with hmem | hmem
    · exact Or.inl (hacts.parkedWorkers_subset hmem)
    · rw [List.mem_singleton.mp hmem]
      exact Or.inr rfl

/-! ## The end of the loop -/

theorem Act.exited_eq (hD : ¬D .leave) (h : Act config clock D s s') : s'.exited = s.exited := by
  cases h with
  | silent h => exact h.exited
  | exit hD' => exact absurd hD' hD
  | grant | removeLease | cancelLease | schedule | popRetry | hand | drain | completeShutdown =>
    rfl

theorem Acts.exited_eq (hD : ¬D .leave) (h : Acts config clock D s s') :
    s'.exited = s.exited := by
  induction h with
  | refl => rfl
  | tail _ hact ih => exact (hact.exited_eq hD).trans ih

theorem get_cancelLeases (ids : List JobId) (s : Coordinator) (id : JobId) :
    (ids.foldl (fun s id => s.cancelLease id) s).leases.get id =
      if id ∈ ids then none else s.leases.get id := by
  induction ids generalizing s with
  | nil => rfl
  | cons id' ids ih =>
    rw [List.foldl_cons, ih]
    change (if id ∈ ids then none else (s.leases.erase id').get id) = _
    rw [HashMap.get_erase]
    by_cases hid : id = id' <;> by_cases hids : id ∈ ids <;> simp [hid, hids]

theorem forceShutdown_leases (s : Coordinator) (id : JobId) :
    s.forceShutdown.leases.get id = none := by
  change (s.leases.keys.foldl (fun s id => s.cancelLease id) s).leases.get id = none
  rw [get_cancelLeases]
  split
  · rfl
  · rename_i hkeys
    rw [HashMap.mem_keys, not_exists] at hkeys
    exact Option.eq_none_iff_forall_ne_some.mpr hkeys

theorem checkExit_leases :
    wp (checkExit env) (fun _ s' => s'.exited = s.exited ∨ ∀ id, s'.leases.get id = none)
      (fun _ _ => True) s := by
  refine (wp_bind _ _).mpr (wp_get.mpr ?_)
  split
  · rename_i hempty
    refine Or.inr fun id => ?_
    rw [Bool.and_eq_true, List.isEmpty_iff] at hempty
    cases hget : s.leases.get id with
    | none => exact hget
    | some lease =>
      have hkey : id ∈ s.leases.keys := HashMap.mem_keys.mpr ⟨lease, hget⟩
      rw [hempty.2] at hkey
      cases hkey
  split
  · exact Or.inl rfl
  refine (wp_bind _ _).mpr (wp_draw.mpr ?_)
  split
  · exact Or.inr (forceShutdown_leases _)
  · exact Or.inl rfl

theorem exec_exited_eq (hidle : Idle s) {op : Op} (hD : ¬op.Deals .leave)
    (h : exec X config env op s = .ok () s') : s'.exited = s.exited := by
  obtain ⟨s₁, hacts, hreceives⟩ := wp_ok (exec_receives hidle op) h
  refine Eq.trans ?_ (hacts.exited_eq hD)
  generalize op.awaits = awaits at hreceives
  cases hreceives <;> rfl

theorem exec_exited (hidle : Idle s) {op : Op} (hop : op ≠ .hangUp)
    (h : exec X config env op s = .ok () s') :
    s'.exited = s.exited ∨ ∀ id, s'.leases.get id = none := by
  cases op with
  | checkExit =>
    have hleft := wp_ok (m := checkExit env) checkExit_leases h
    exact hleft
  | hangUp => exact absurd rfl hop
  | processDueRetries | checkLeaseTimeouts | tryDispatchParkedWorkers =>
    exact Or.inl (exec_exited_eq hidle (by simp [Op.Deals]) h)
  | handle cmd =>
    cases cmd <;> exact Or.inl (exec_exited_eq hidle (by simp [Op.Deals]) h)

end Coordinator

end DurableQueue
