import DurableQueue.Defs.RecoverLog
import DurableQueue.Defs.Coordinator.OpsLaws
import DurableQueue.Defs.Coordinator.Permits

/-! A process on a log file: the file holds what the process found and what it has
acknowledged since, and this log is legal. -/

namespace DurableQueue

/-- A call that fails in this way leaves no bytes in the file. -/
def Fault.Clean : Fault → Prop
  | .none | .before _ => True
  | .write _ written => written = 0
  | .sync _ => False

structure GlobalStats.Counts (g : GlobalStats) (log : List WalRecord) : Prop where
  submitted : g.submitted = log.countP (·.isSubmitted)
  completed : g.completed = log.countP (·.isCompleted)
  dead : g.dead = log.countP (·.isDead)
  cancelled : g.cancelled = log.countP (·.isCancelled)
  retried : g.retried = log.countP (·.isRetryScheduled)

theorem GlobalStats.Counts.snoc {g : GlobalStats} {log : List WalRecord} (h : g.Counts log)
    (r : WalRecord) : (g.count r).Counts (log ++ [r]) := by
  constructor <;> rw [List.countP_append]
  · rw [← h.submitted]
    cases r <;> rfl
  · rw [← h.completed]
    cases r <;> rfl
  · rw [← h.dead]
    cases r <;> rfl
  · rw [← h.cancelled]
    cases r <;> rfl
  · rw [← h.retried]
    cases r <;> rfl

theorem GlobalStats.Counts.of_eq {g g' : GlobalStats} {log : List WalRecord} (h : g.Counts log)
    (heq : { g' with staleOutcomes := 0 } = { g with staleOutcomes := 0 }) : g'.Counts log := by
  obtain ⟨h₁, h₂, h₃, h₄, h₅⟩ := h
  simp only [GlobalStats.mk.injEq] at heq
  obtain ⟨e₁, e₂, e₃, e₄, e₅, _⟩ := heq
  exact ⟨e₁.trans h₁, e₂.trans h₂, e₃.trans h₃, e₄.trans h₄, e₅.trans h₅⟩

theorem lastLease_append (log log' : List WalRecord) (id : JobId) :
    lastLease (log ++ log') id = (lastLease log' id).or (lastLease log id) := by
  induction log' using List.reverseRecOn with
  | nil => rw [List.append_nil]; rfl
  | append_singleton log' r ih =>
    rw [← List.append_assoc, lastLease_snoc, lastLease_snoc, ih, Option.or_assoc]

theorem Allowed.maxEpoch_snoc {config : RuntimeConfig} {log : List WalRecord} {r : WalRecord}
    (h : Allowed config log r) :
    (maxEpoch (log ++ [r])).toNat =
      (maxEpoch log).toNat + if r.leasedEpoch.isSome then 1 else 0 := by
  rw [maxEpoch_append_singleton, toNat_max_epoch]
  cases h with
  | lease _ _ hepoch => simp [WalRecord.leasedEpoch, hepoch]
  | submit | retry | complete | die | cancel => simp [WalRecord.leasedEpoch]

theorem WriterThread.Holds.processWrite_clean {X : Crates} {w : WriterThread}
    {log : List WalRecord} (h : Holds X w log []) (r : WalRecord) {fault : Fault}
    (hfault : fault.Clean) :
    (∃ w' seq, w.processWrite X r fault = (.ok seq, w') ∧ Holds X w' (log ++ [r]) []) ∨
      ∃ w' e, w.processWrite X r fault = (.error e, w') ∧ Holds X w' log [] := by
  have hsync : ¬ SyncFails X (r, fault) := by
    rintro ⟨_, e, rfl⟩
    exact hfault
  rcases h.processWrite r fault hsync with ⟨w', hw, hh⟩ | ⟨e, w', torn, hw, hh, htears⟩
  · exact Or.inl ⟨w', _, hw, hh⟩
  · refine Or.inr ⟨w', e, hw, ?_⟩
    have hnil : torn = [] := by
      by_contra hne
      obtain ⟨_, e, n, hn, rfl⟩ := htears hne
      exact absurd hfault (Nat.pos_iff_ne_zero.mp hn)
    rwa [hnil] at hh

namespace Coordinator

variable {X : Crates} {P : Fault → Prop} {config : RuntimeConfig} {base : List WalRecord}
  {s₀ s s' : Coordinator}

structure Logged (X : Crates) (config : RuntimeConfig) (base : List WalRecord)
    (s : Coordinator) : Prop where
  legal : Legal config (base ++ s.acked)
  holds : ∃ w, s.storage = .wal w ∧ WriterThread.Holds X w (base ++ s.acked) []
  store : s.store.UpToRequeue (replayed (base ++ s.acked))
  epoch : s.nextLeaseEpoch.toNat = (maxEpoch (base ++ s.acked)).toNat + 1
  counted : s.globalStats.Counts (base ++ s.acked)

theorem Logged.epoch_lt (h : Logged X config base s) : s.nextLeaseEpoch.toNat + 1 < 2 ^ 64 := by
  obtain ⟨w, _, hw⟩ := h.holds
  have hlt := hw.length_lt
  have hmax := h.legal.maxEpoch_le
  have hepoch := h.epoch
  omega

theorem Placement.lastLease_eq (h : Placement config s) (base : List WalRecord) {id : JobId}
    {lease : ActiveLease} (hl : s.leases.get id = some lease) :
    lastLease (base ++ s.acked) id = some lease.leaseId := by
  rw [lastLease_append, (h.leased id lease hl).2, Option.some_or]

theorem Offers.allowed {r : WalRecord} {pre : Coordinator} {expose : Coordinator → Coordinator}
    (h : Offers s r pre expose) (hlog : Logged X config base s) (hplace : Placement config s)
    (hacc : Accounts config s₀ s) : Allowed config (base ++ s.acked) r := by
  cases h with
  | @submit id queue spec createdAt permit hqueue hfresh hpermit hfor =>
    rw [hplace.queues] at hqueue
    obtain ⟨c, hc⟩ := Option.isSome_iff_exists.mp hqueue
    refine .submit (hlog.store.get_none.mp hfresh) hc ?_
    -- the permit of the submission is one unit that no job occupies
    have hin : 0 < s.inFlightIn queue.asStr :=
      List.countP_pos_iff.mpr ⟨permit, hpermit, by simp [hfor]⟩
    have hle := hacc.le_capacity queue.asStr hc
    rw [← hlog.store.liveIn_eq]
    omega
  | @lease id job queue qs leasedAt deadline hqueue hfront hjob hstate =>
    rcases hlog.store.get_some hjob with hr | ⟨_, hr⟩
    · exact .lease hr (Or.inl hstate) hlog.epoch
    · exact @Allowed.lease _ _ id { job with state := .retryWaiting } _ _ hr (Or.inr rfl)
        hlog.epoch
  | complete hl hjob hstate =>
    exact .complete (hlog.store.get_eq hjob (by simp [hstate])) hstate (hplace.lastLease_eq base hl)
  | die hl hjob hstate =>
    exact .die (hlog.store.get_eq hjob (by simp [hstate])) hstate (hplace.lastLease_eq base hl)
  | retry hl hjob hstate hattempts =>
    exact .retry (hlog.store.get_eq hjob (by simp [hstate])) hstate
      (hplace.lastLease_eq base hl) hattempts
  | cancel hjob hlive =>
    rcases hlog.store.get_some hjob with hr | ⟨_, hr⟩
    · exact .cancel hr hlive
    · exact .cancel hr rfl

theorem Logged.of_same (h : Logged X config base s) (hacked : s'.acked = s.acked)
    (hstorage : s'.storage = s.storage)
    (hstore : s'.store.UpToRequeue (replayed (base ++ s.acked)))
    (hepoch : s'.nextLeaseEpoch = s.nextLeaseEpoch)
    (hstats : { s'.globalStats with staleOutcomes := 0 } =
      { s.globalStats with staleOutcomes := 0 }) : Logged X config base s' where
  legal := hacked ▸ h.legal
  holds := by
    rw [hstorage, hacked]
    exact h.holds
  store := hacked ▸ hstore
  epoch := by rw [hepoch, hacked, h.epoch]
  counted := hacked ▸ h.counted.of_eq hstats

theorem Offers.ack_logged {r : WalRecord} {pre : Coordinator}
    {expose : Coordinator → Coordinator} (h : Offers s r pre expose)
    (hlog : Logged X config base s) (hr : Allowed config (base ++ s.acked) r)
    {w : WriterThread} (hw : WriterThread.Holds X w (base ++ s.acked ++ [r]) []) (tick : Nat) :
    Logged X config base (expose (pre.commit r (.wal w) tick)) := by
  have hacked : base ++ (expose (pre.commit r (.wal w) tick)).acked = base ++ s.acked ++ [r] := by
    rw [h.acked_ack, List.append_assoc]
  refine ⟨?_, ⟨w, h.storage_ack _ tick, ?_⟩, ?_, ?_, ?_⟩
  · rw [hacked]
    exact hlog.legal.snoc hr
  · rwa [hacked]
  · rw [hacked, h.store_ack, replayed, MemoryStore.replay_snoc]
    exact hlog.store.apply r
  · rw [hacked, h.nextLeaseEpoch_ack, hr.maxEpoch_snoc]
    have hepoch := hlog.epoch
    split
    · rw [checkedSucc_some (checkedSucc_of_lt hlog.epoch_lt), hepoch]
    · exact hepoch
  · rw [hacked, h.globalStats_ack]
    exact hlog.counted.snoc r

theorem Step.logged (h : Step X Fault.Clean s s') (hlog : Logged X config base s)
    (hplace : Placement config s) (hacc : Accounts config s₀ s) : Logged X config base s' := by
  obtain ⟨w, hstorage, hw⟩ := hlog.holds
  cases h with
  | quiet h =>
    refine hlog.of_same ?_ h.storage ?_ h.nextLeaseEpoch h.globalStats
    · rw [acked, h.journal, acked]
    · rw [h.store]
      exact hlog.store
  | @ack r pre expose fault seq storage h hfault hp tick =>
    rw [hstorage, Storage.persist] at hp
    rcases hw.processWrite_clean r hfault with ⟨w', seq', hpw, hw'⟩ | ⟨w', e, hpw, _⟩
    · rw [hpw] at hp
      cases hp
      exact h.ack_logged hlog (h.allowed hlog hplace hacc) hw' tick
    · rw [hpw] at hp
      cases hp
  | @nack r pre expose fault e storage h hfault hp tick =>
    rw [hstorage, Storage.persist] at hp
    rcases hw.processWrite_clean r hfault with ⟨w', seq', hpw, _⟩ | ⟨w', e, hpw, hw'⟩
    · rw [hpw] at hp
      cases hp
    · rw [hpw] at hp
      cases hp
      have hacked := h.acked_nack e (.wal w') tick
      refine ⟨hacked ▸ hlog.legal, ⟨w', rfl, hacked ▸ hw'⟩, ?_, ?_, ?_⟩
      · rw [h.store_nack, hacked]
        exact hlog.store
      · rw [h.nextLeaseEpoch_nack, hacked]
        exact hlog.epoch
      · rw [h.globalStats_nack, hacked]
        exact hlog.counted
  | requeue _ hjob hstate => exact hlog.of_same rfl rfl (hlog.store.requeue hjob hstate) rfl rfl
  | dropEntry | acquire | returnPermit => exact hlog.of_same rfl rfl hlog.store rfl rfl
  | forceShutdown =>
    have hacked := acked_forceShutdown s
    have hstore := store_forceShutdown s
    obtain ⟨_, _, _, _, heq, _⟩ := forceShutdown_frame s
    refine hlog.of_same hacked ?_ (hstore ▸ hlog.store) ?_ ?_ <;> rw [heq]

end Coordinator

end DurableQueue
