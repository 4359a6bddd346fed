import DurableQueue.Defs.Recovered

/-! The protocol that the log of a queue follows: which record may come next, by what the
replay of the log says about its job. -/

namespace DurableQueue

abbrev replayed (log : List WalRecord) : MemoryStore := MemoryStore.replay .empty log

inductive Allowed (config : RuntimeConfig) (log : List WalRecord) : WalRecord → Prop
  | submit {id : JobId} {queue : QueueName} {spec : JobSpec} {createdAt : UnixMillis} {c : Nat}
      (hfresh : (replayed log).get id = none) (hcap : config.capacity queue.asStr = some c)
      (hroom : (replayed log).liveIn queue.asStr < c) :
      Allowed config log (.jobSubmitted id queue spec createdAt)
  | lease {id : JobId} {job : JobRecord} {leaseId : LeaseId} {leasedAt : UnixMillis}
      (hjob : (replayed log).get id = some job)
      (hstate : job.state = .queued ∨ job.state = .retryWaiting)
      (hepoch : leaseId.epoch.toNat = (maxEpoch log).toNat + 1) :
      Allowed config log (.jobLeased id leaseId (job.attempts + 1) leasedAt)
  | retry {id : JobId} {job : JobRecord} {leaseId : LeaseId} {availableAt : UnixMillis}
      (hjob : (replayed log).get id = some job) (hstate : job.state = .running)
      (hlease : lastLease log id = some leaseId) (hattempts : job.attempts < job.spec.maxAttempts) :
      Allowed config log (.jobRetryScheduled id leaseId job.attempts availableAt)
  | complete {id : JobId} {job : JobRecord} {leaseId : LeaseId} {completedAt : UnixMillis}
      (hjob : (replayed log).get id = some job) (hstate : job.state = .running)
      (hlease : lastLease log id = some leaseId) :
      Allowed config log (.jobCompleted id leaseId completedAt)
  | die {id : JobId} {job : JobRecord} {leaseId : LeaseId} {deadAt : UnixMillis}
      (hjob : (replayed log).get id = some job) (hstate : job.state = .running)
      (hlease : lastLease log id = some leaseId) :
      Allowed config log (.jobDead id leaseId deadAt)
  | cancel {id : JobId} {job : JobRecord} {cancelledAt : UnixMillis}
      (hjob : (replayed log).get id = some job) (hlive : job.state.isTerminal = false) :
      Allowed config log (.jobCancelled id cancelledAt)

inductive Legal (config : RuntimeConfig) : List WalRecord → Prop
  | nil : Legal config []
  | snoc {log : List WalRecord} {r : WalRecord} (h : Legal config log)
      (hr : Allowed config log r) : Legal config (log ++ [r])

variable {config : RuntimeConfig} {log : List WalRecord} {r : WalRecord}

namespace Allowed

theorem job (h : Allowed config log r) (hr : r.isSubmitted = false) :
    ∃ job, (replayed log).get r.jobId = some job ∧ job.state.isTerminal = false := by
  cases h with
  | submit => cases hr
  | lease hjob hstate =>
    refine ⟨_, hjob, ?_⟩
    rcases hstate with hstate | hstate <;> rw [hstate] <;> rfl
  | retry hjob hstate | complete hjob hstate | die hjob hstate =>
    exact ⟨_, hjob, by rw [hstate]; rfl⟩
  | cancel hjob hlive => exact ⟨_, hjob, hlive⟩

theorem outcome (h : Allowed config log r) {l : LeaseId} (hl : r.outcomeLease = some l) :
    ∃ job, (replayed log).get r.jobId = some job ∧ job.state = .running ∧
      lastLease log r.jobId = some l := by
  cases h with
  | retry hjob hstate hlease | complete hjob hstate hlease | die hjob hstate hlease =>
    cases hl
    exact ⟨_, hjob, hstate, hlease⟩
  | submit | lease | cancel => cases hl

end Allowed

namespace Legal

theorem initialSegment (h : Legal config log) {p : List WalRecord} (hp : p <+: log) :
    Legal config p := by
  induction h with
  | nil =>
    rw [List.prefix_nil.mp hp]
    exact .nil
  | snoc h hr ih =>
    rcases List.prefix_concat_iff.mp hp with rfl | hp
    · exact h.snoc hr
    · exact ih hp

theorem last {r : WalRecord} (h : Legal config (log ++ [r])) : Allowed config log r := by
  generalize heq : log ++ [r] = log' at h
  cases h with
  | nil => cases List.append_ne_nil_of_right_ne_nil log (List.cons_ne_nil r []) heq
  | snoc h hr =>
    obtain ⟨rfl, hlast⟩ := List.append_inj' heq rfl
    cases hlast
    exact hr

theorem nodup (h : Legal config log) : (submittedIds log).Nodup := by
  induction h with
  | nil => exact List.nodup_nil
  | @snoc log r h hr ih =>
    rw [submittedIds_snoc]
    split
    · refine ih.append (List.nodup_singleton _) ?_
      rw [List.disjoint_singleton, (tracked_replay ih).ids, (tracked_replay ih).store,
        Option.not_isSome_iff_eq_none]
      rename_i hsub
      cases hr with
      | submit hfresh => exact hfresh
      | lease | retry | complete | die | cancel => cases hsub
    · simpa using ih

/-! ## Capacity -/

theorem fits (h : Legal config log) : Fits config (replayed log) := by
  induction h with
  | nil => constructor <;> simp [MemoryStore.place, MemoryStore.liveIn]
  | @snoc log r h hr ih =>
    rw [replayed, MemoryStore.replay_snoc]
    by_cases hsub : r.isSubmitted
    · cases hr with
      | @submit id queue spec createdAt c hfresh hcap hroom =>
        refine ⟨fun id' st q hplace hst => ?_, fun q c' hc' => ?_⟩
        · rw [MemoryStore.place_submitted] at hplace
          split at hplace
          · rw [← (Prod.mk.inj (Option.some.inj hplace)).2, hcap]
            rfl
          · exact ih.configured id' st q hplace hst
        · rw [MemoryStore.liveIn_submitted hfresh]
          split
          · rename_i hq
            subst hq
            rw [hcap] at hc'
            cases hc'
            exact hroom
          · exact ih.capacity q c' hc'
      | lease | retry | complete | die | cancel => cases hsub
    · rw [Bool.not_eq_true] at hsub
      obtain ⟨job, hjob, hlive⟩ := hr.job hsub
      refine ⟨fun id st q hplace hst => ?_, fun q c hc => ?_⟩
      · rw [MemoryStore.place_apply hjob hsub] at hplace
        split at hplace
        · rw [← (Prod.mk.inj (Option.some.inj hplace)).2]
          exact ih.configured _ _ _ (MemoryStore.place_of_get hjob) hlive
        · exact ih.configured id st q hplace hst
      · have hcount := MemoryStore.liveIn_apply hjob hsub hlive q
        exact (Nat.le_add_right _ _).trans (hcount.le.trans (ih.capacity q c hc))

/-! ## Epochs -/

theorem maxEpoch_le (h : Legal config log) : (maxEpoch log).toNat ≤ log.length := by
  induction h with
  | nil => exact Nat.le_refl 0
  | @snoc log r h hr ih =>
    rw [maxEpoch_append_singleton, toNat_max_epoch, List.length_append]
    cases hr with
    | lease _ _ hepoch =>
      simp only [WalRecord.leasedEpoch, Option.getD_some, hepoch, List.length_singleton]
      omega
    | submit | retry | complete | die | cancel =>
      simp only [WalRecord.leasedEpoch, Option.getD_none, List.length_singleton]
      exact Nat.max_le.mpr ⟨ih.trans (Nat.le_succ _), Nat.zero_le _⟩

end Legal

theorem leasedEpoch_le {r : WalRecord} (hr : r ∈ log) {e : UInt64}
    (he : r.leasedEpoch = some e) : e.toNat ≤ (maxEpoch log).toNat := by
  induction log using List.reverseRecOn with
  | nil => cases hr
  | append_singleton log r' ih =>
    rw [maxEpoch_append_singleton, toNat_max_epoch]
    rcases List.mem_append.mp hr with hr | hr
    · exact (ih hr).trans (Nat.le_max_left _ _)
    · rw [← List.mem_singleton.mp hr, he]
      exact Nat.le_max_right _ _

theorem maxEpoch_le_append (log recs : List WalRecord) :
    (maxEpoch log).toNat ≤ (maxEpoch (log ++ recs)).toNat := by
  induction recs using List.reverseRecOn with
  | nil => rw [List.append_nil]
  | append_singleton recs r ih =>
    rw [← List.append_assoc, maxEpoch_append_singleton, toNat_max_epoch]
    exact ih.trans (Nat.le_max_left _ _)

theorem lastLease_mem {id : JobId} {l : LeaseId} (h : lastLease log id = some l) :
    ∃ r ∈ log, r.leasedEpoch = some l.epoch := by
  induction log using List.reverseRecOn with
  | nil => cases h
  | append_singleton log r ih =>
    rw [lastLease_snoc] at h
    cases hr : r.leaseFor id with
    | none =>
      rw [hr, Option.none_or] at h
      obtain ⟨r', hr', he⟩ := ih h
      exact ⟨r', List.mem_append_left _ hr', he⟩
    | some l' =>
      rw [hr, Option.some_or] at h
      cases h
      refine ⟨r, by simp, ?_⟩
      cases r with
      | jobLeased id' leaseId =>
        simp only [WalRecord.leaseFor] at hr
        split at hr
        · cases hr
          rfl
        · cases hr
      | jobSubmitted | jobRetryScheduled | jobCompleted | jobDead | jobCancelled => cases hr

theorem lastLease_le {id : JobId} {l : LeaseId} (h : lastLease log id = some l) :
    l.epoch.toNat ≤ (maxEpoch log).toNat := by
  obtain ⟨r, hr, he⟩ := lastLease_mem h
  exact leasedEpoch_le hr he

namespace Legal

theorem epochs_increasing (h : Legal config log) :
    (log.filterMap WalRecord.leasedEpoch).Pairwise (fun e e' => e.toNat < e'.toNat) := by
  induction h with
  | nil => exact List.Pairwise.nil
  | @snoc log r h hr ih =>
    rw [List.filterMap_append]
    cases hr with
    | lease _ _ hepoch =>
      refine List.pairwise_append.mpr ⟨ih, List.pairwise_singleton _ _, ?_⟩
      intro e he e' he'
      obtain ⟨r, hr, hre⟩ := List.mem_filterMap.mp he
      rw [List.mem_singleton.mp he', hepoch]
      exact Nat.lt_succ_of_le (leasedEpoch_le hr hre)
    | submit | retry | complete | die | cancel =>
      change List.Pairwise _ (_ ++ [])
      rw [List.append_nil]
      exact ih

theorem lastLease_injective (h : Legal config log) {id id' : JobId} {l : LeaseId}
    (hid : lastLease log id = some l) (hid' : lastLease log id' = some l) : id = id' := by
  induction h with
  | nil => cases hid
  | @snoc log r h hr ih =>
    rw [lastLease_snoc] at hid hid'
    cases hr with
    | @lease i job leaseId leasedAt _ _ hepoch =>
      have hnew : ∀ {k}, lastLease log k ≠ some leaseId := by
        intro k hk
        have := lastLease_le hk
        omega
      have hcases : ∀ {k}, ((WalRecord.jobLeased i leaseId (job.attempts + 1) leasedAt).leaseFor
          k).or (lastLease log k) = some l → i = k ∧ leaseId = l ∨ lastLease log k = some l := by
        intro k hk
        simp only [WalRecord.leaseFor] at hk
        split at hk
        · rename_i heq
          exact Or.inl ⟨heq, Option.some.inj hk⟩
        · exact Or.inr hk
      rcases hcases hid with ⟨rfl, rfl⟩ | hold <;> rcases hcases hid' with ⟨heq, hl⟩ | hold'
      · exact heq
      · exact absurd hold' hnew
      · exact absurd (hl ▸ hold) hnew
      · exact ih hold hold'
    | submit | retry | complete | die | cancel =>
      simp only [WalRecord.leaseFor, Option.none_or] at hid hid'
      exact ih hid hid'

end Legal

/-! ## Leases and states -/

theorem get_replayed_snoc {id : JobId} {job : JobRecord}
    (hget : (replayed (log ++ [r])).get id = some job) :
    id ≠ r.jobId ∧ (replayed log).get id = some job ∨ id = r.jobId ∧ job.state = r.dst := by
  rw [replayed, MemoryStore.replay_snoc] at hget
  exact MemoryStore.get_apply_cases hget

structure History (log : List WalRecord) : Prop where
  unknown : ∀ id, (replayed log).get id = none → lastLease log id = none
  queued : ∀ id job, (replayed log).get id = some job → job.state = .queued →
    lastLease log id = none
  waiting : ∀ id job, (replayed log).get id = some job → job.state = .retryWaiting →
    (lastRetry log id).isSome ∧ (lastLease log id).isSome

abbrev outcomes (log : List WalRecord) : List LeaseId := log.filterMap WalRecord.outcomeLease

structure Fenced (log : List WalRecord) : Prop where
  nodup : (outcomes log).Nodup
  running : ∀ id job l, (replayed log).get id = some job → job.state = .running →
    lastLease log id = some l → l ∉ outcomes log
  granted : ∀ l ∈ outcomes log, l.epoch.toNat ≤ (maxEpoch log).toNat

namespace Legal

theorem history (h : Legal config log) : History log := by
  induction h with
  | nil => constructor <;> simp
  | @snoc log r h hr ih =>
    refine ⟨fun id hnone => ?_, fun id job hget hstate => ?_, fun id job hget hstate => ?_⟩
    · rw [replayed, MemoryStore.replay_snoc, MemoryStore.get_applyRecordForRecovery] at hnone
      by_cases hid : id = r.jobId
      · exfalso
        rw [if_pos hid] at hnone
        by_cases hsub : r.isSubmitted
        · cases r <;> first | cases hnone | cases hsub
        · rw [Bool.not_eq_true] at hsub
          obtain ⟨job, hjob, _⟩ := hr.job hsub
          rw [hid, hjob, WalRecord.effect_some] at hnone
          cases hnone
      · rw [if_neg hid] at hnone
        rw [lastLease_snoc, WalRecord.leaseFor_other hid, ih.unknown id hnone]
        rfl
    · rcases get_replayed_snoc hget with ⟨hid, hold⟩ | ⟨rfl, hdst⟩
      · rw [lastLease_snoc, WalRecord.leaseFor_other hid, ih.queued id job hold hstate]
        rfl
      · rw [hstate] at hdst
        cases hr with
        | submit hfresh =>
          rw [lastLease_snoc]
          exact ih.unknown _ hfresh
        | lease | retry | complete | die | cancel => cases hdst
    · rcases get_replayed_snoc hget with ⟨hid, hold⟩ | ⟨rfl, hdst⟩
      · rw [lastRetry_snoc, lastLease_snoc, WalRecord.retryFor_other hid,
          WalRecord.leaseFor_other hid]
        exact ih.waiting id job hold hstate
      · rw [hstate] at hdst
        cases hr with
        | retry _ _ hlease =>
          simp [WalRecord.jobId, WalRecord.retryFor, WalRecord.leaseFor, hlease]
        | submit | lease | complete | die | cancel => cases hdst

theorem fenced (h : Legal config log) : Fenced log := by
  induction h with
  | nil => constructor <;> simp
  | @snoc log r h hr ih =>
    have hout : outcomes (log ++ [r]) = outcomes log ++ r.outcomeLease.toList := by
      rw [outcomes, List.filterMap_append]
      cases hl : r.outcomeLease <;> simp [hl]
    have hmax : (maxEpoch log).toNat ≤ (maxEpoch (log ++ [r])).toNat := by
      rw [maxEpoch_append_singleton, toNat_max_epoch]
      exact Nat.le_max_left _ _
    refine ⟨?_, fun id job l hget hstate hl => ?_, fun l hl => ?_⟩
    · rw [hout]
      cases hl : r.outcomeLease with
      | none => simpa using ih.nodup
      | some l =>
        obtain ⟨job, hjob, hstate, hlast⟩ := hr.outcome hl
        rw [Option.toList_some]
        exact ih.nodup.append (List.nodup_singleton l)
          (List.disjoint_singleton.mpr (ih.running _ job l hjob hstate hlast))
    · rw [hout, List.mem_append, not_or]
      rcases get_replayed_snoc hget with ⟨hid, hold⟩ | ⟨rfl, hdst⟩
      · rw [lastLease_snoc, WalRecord.leaseFor_other hid, Option.none_or] at hl
        refine ⟨ih.running id job l hold hstate hl, fun hmem => ?_⟩
        obtain ⟨_, _, _, hlast⟩ := hr.outcome (Option.mem_toList.mp hmem)
        exact hid (h.lastLease_injective hl hlast)
      · rw [hstate] at hdst
        cases hr with
        | lease _ _ hepoch =>
          rw [lastLease_snoc] at hl
          simp only [WalRecord.leaseFor, WalRecord.jobId, if_true, Option.some_or,
            Option.some.injEq] at hl
          subst hl
          refine ⟨fun hmem => ?_, by simp [WalRecord.outcomeLease]⟩
          have := ih.granted _ hmem
          omega
        | submit | retry | complete | die | cancel => cases hdst
    · rw [hout, List.mem_append] at hl
      rcases hl with hl | hl
      · exact (ih.granted l hl).trans hmax
      · obtain ⟨_, _, _, hlast⟩ := hr.outcome (Option.mem_toList.mp hl)
        exact (lastLease_le hlast).trans hmax

end Legal

/-! ## Reconciliation -/

theorem lastLease_append_of_none {recs : List WalRecord} {id : JobId}
    (h : ∀ r ∈ recs, r.leaseFor id = none) (log : List WalRecord) :
    lastLease (log ++ recs) id = lastLease log id := by
  induction recs using List.reverseRecOn with
  | nil => rw [List.append_nil]
  | append_singleton recs r ih =>
    rw [← List.append_assoc, lastLease_snoc, h r (by simp), Option.none_or]
    exact ih (fun r' hr' => h r' (by simp [hr']))

theorem maxEpoch_append_of_none {recs : List WalRecord} (h : ∀ r ∈ recs, r.leasedEpoch = none)
    (log : List WalRecord) : maxEpoch (log ++ recs) = maxEpoch log := by
  induction recs using List.reverseRecOn with
  | nil => rw [List.append_nil]
  | append_singleton recs r ih =>
    rw [← List.append_assoc, maxEpoch_append_singleton, h r (by simp), Option.getD_none,
      max_zero_epoch]
    exact ih (fun r' hr' => h r' (by simp [hr']))

def Reconciles (log : List WalRecord) (r : WalRecord) : Prop :=
  ∃ now l job, r = reconciliation now l job r.jobId ∧ (replayed log).get r.jobId = some job ∧
    job.state = .running ∧ lastLease log r.jobId = some l

theorem isSubmitted_reconciles (h : Reconciles log r) : r.isSubmitted = false := by
  obtain ⟨now, l, job, heq, _⟩ := h
  rw [heq, isSubmitted_reconciliation]

theorem leaseFor_reconciles (h : Reconciles log r) (id : JobId) : r.leaseFor id = none := by
  obtain ⟨now, l, job, heq, _⟩ := h
  rcases reconciliation_cases now l job r.jobId with h | h <;> rw [heq, h] <;> rfl

theorem leasedEpoch_reconciles (h : Reconciles log r) : r.leasedEpoch = none := by
  obtain ⟨now, l, job, heq, _⟩ := h
  rcases reconciliation_cases now l job r.jobId with h | h <;> rw [heq, h] <;> rfl

theorem Legal.reconciled (h : Legal config log) {recs : List WalRecord}
    (hnodup : (recs.map WalRecord.jobId).Nodup) (hrecs : ∀ r ∈ recs, Reconciles log r) :
    Legal config (log ++ recs) := by
  induction recs using List.reverseRecOn with
  | nil => simpa using h
  | append_singleton recs r ih =>
    rw [List.map_append, List.nodup_append] at hnodup
    have hrecs' : ∀ r' ∈ recs, Reconciles log r' := fun r' hr' => hrecs r' (by simp [hr'])
    obtain ⟨now, l, job, heq, hjob, hstate, hlease⟩ := hrecs r (by simp)
    -- the records before it are about other jobs
    have hjob' : (replayed (log ++ recs)).get r.jobId = some job := by
      rw [replayed, MemoryStore.replay_append, MemoryStore.get_replay_of_ne, hjob]
      intro r' hr' hsame
      exact hnodup.2.2 _ (List.mem_map.mpr ⟨r', hr', rfl⟩) r.jobId (by simp) hsame.symm
    have hlease' : lastLease (log ++ recs) r.jobId = some l := by
      rw [lastLease_append_of_none (fun r' hr' => leaseFor_reconciles (hrecs' r' hr') _), hlease]
    rw [← List.append_assoc]
    refine (ih hnodup.1 hrecs').snoc ?_
    rw [heq, reconciliation]
    split
    · rename_i hattempts
      exact .retry hjob' hstate hlease' hattempts
    · exact .die hjob' hstate hlease'

theorem reconciliationOf_nodup (env : RecoverEnv) (log : List WalRecord) :
    ((reconciliationOf env log).map WalRecord.jobId).Nodup :=
  reconcileRunningJobs_nodup _ _

theorem reconciliationOf_reconciles (env : RecoverEnv) (h : (submittedIds log).Nodup) :
    ∀ r ∈ reconciliationOf env log, Reconciles log r := by
  have htracked := tracked_replay h
  intro r hr
  obtain ⟨id, l, a, job, hrun, hget, hstate, rfl⟩ := mem_reconcileRunningJobs.mp hr
  rw [htracked.store] at hget
  refine ⟨env.now, l, job, by rw [jobId_reconciliation], ?_, hstate, ?_⟩
  · rw [jobId_reconciliation]
    exact hget
  · rw [jobId_reconciliation]
    exact htracked.running_last id l a hrun

/-- Whatever part of its reconciliation a recovery writes, the log stays legal. -/
theorem Legal.recovered (h : Legal config log) (env : RecoverEnv) (n : Nat) :
    Legal config (log ++ (reconciliationOf env log).take n) := by
  refine h.reconciled ?_ ?_
  · rw [List.map_take]
    exact (reconciliationOf_nodup env log).sublist (List.take_sublist _ _)
  · exact fun r hr => reconciliationOf_reconciles env h.nodup r (List.mem_of_mem_take hr)

theorem Legal.recovered_all (h : Legal config log) (env : RecoverEnv) :
    Legal config (log ++ reconciliationOf env log) :=
  h.reconciled (reconciliationOf_nodup env log) (reconciliationOf_reconciles env h.nodup)

theorem maxEpoch_reconciled (env : RecoverEnv) (h : (submittedIds log).Nodup) :
    maxEpoch (log ++ reconciliationOf env log) = maxEpoch log :=
  maxEpoch_append_of_none
    (fun r hr => leasedEpoch_reconciles (reconciliationOf_reconciles env h r hr)) log

end DurableQueue
