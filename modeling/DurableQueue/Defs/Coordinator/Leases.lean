import DurableQueue.Defs.Coordinator.Logged

/-! Leases are granted with rising epochs and end once. -/

namespace DurableQueue

namespace Coordinator

variable {X : Crates} {P : Fault → Prop} {config : RuntimeConfig} {base : List WalRecord}
  {past : List LeaseId} {s₀ s s' : Coordinator}

@[simp] theorem ended_commit (r : WalRecord) (st : Storage) (t : Nat) (s : Coordinator) :
    (s.commit r st t).ended = s.ended := by
  simp [ended, commit, Event.asEnded]

@[simp] theorem ended_refuse (r : WalRecord) (e : WalError) (st : Storage) (t : Nat)
    (s : Coordinator) :
    (s.refuse r e st t).ended = s.ended := by
  simp [ended, refuse, Event.asEnded]

theorem ended_of_journal {ls : List LeaseId}
    (h : s'.journal = s.journal ++ ls.map Event.ended) : s'.ended = s.ended ++ ls := by
  rw [ended, h, List.filterMap_append, List.filterMap_map]
  have hsome : Event.asEnded ∘ Event.ended = some := rfl
  rw [hsome, List.filterMap_some, ended]

inductive LeaseStep (s s' : Coordinator) : Prop
  | ends (ls : List LeaseId) (hended : s'.ended = s.ended ++ ls)
      (h : Ended s.leases s'.leases ls) (hepoch : s'.nextLeaseEpoch = s.nextLeaseEpoch)
  | grants (id : JobId) (lease : ActiveLease) (hlease : lease.leaseId = ⟨s.nextLeaseEpoch⟩)
      (hleases : s'.leases = s.leases.insert id lease) (hended : s'.ended = s.ended)
      (hepoch : s'.nextLeaseEpoch = s.nextLeaseEpoch + 1)

theorem LeaseStep.same (hleases : s'.leases = s.leases) (hended : s'.ended = s.ended)
    (hepoch : s'.nextLeaseEpoch = s.nextLeaseEpoch) : LeaseStep s s' :=
  .ends [] (by simp [hended]) (by rw [hleases]; exact .refl _) hepoch

theorem LeaseStep.ends_one {id : JobId} (hleases : s'.leases = s.leases.erase id)
    (hended : s'.ended = (s.removeLease id).ended)
    (hepoch : s'.nextLeaseEpoch = s.nextLeaseEpoch) : LeaseStep s s' := by
  obtain ⟨ls, hjournal, h⟩ := removeLease_ended id s
  exact .ends ls (hended.trans (ended_of_journal hjournal)) (by rwa [hleases]) hepoch

theorem ended_removeLease_commit (id : JobId) (r : WalRecord) (st : Storage) (t : Nat)
    (s : Coordinator) : ((s.commit r st t).removeLease id).ended = (s.removeLease id).ended := by
  simp only [ended, removeLease, commit]
  cases s.leases.get id <;> simp [List.filterMap_cons, Event.asEnded]

theorem Offers.leaseStep_ack {r : WalRecord} {pre : Coordinator}
    {expose : Coordinator → Coordinator} (h : Offers s r pre expose) (st : Storage) (t : Nat) :
    LeaseStep s (expose (pre.commit r st t)) := by
  cases h with
  | submit => exact .same rfl (ended_commit _ st t s) rfl
  | @cancel id job cancelledAt hjob hlive =>
    rw [exposeCancel_eq]
    by_cases hrun : job.state = .running ∧ (s.queues.get job.queue.asStr).isSome
    · refine @LeaseStep.ends_one s _ id (if_pos hrun) ?_ rfl
      refine Eq.trans ?_ (ended_removeLease_commit id (.jobCancelled id cancelledAt) st t s)
      exact congrArg (List.filterMap Event.asEnded) (if_pos hrun)
    · refine .same (if_neg hrun) ?_ rfl
      refine Eq.trans ?_ (ended_commit (.jobCancelled id cancelledAt) st t s)
      exact congrArg (List.filterMap Event.asEnded) (if_neg hrun)
  | lease => exact .grants _ _ rfl rfl (ended_commit _ st t s) rfl
  | complete | die | retry => exact .ends_one rfl (ended_commit _ st t _) rfl

theorem Offers.leaseStep_nack {r : WalRecord} {pre : Coordinator}
    {expose : Coordinator → Coordinator} (h : Offers s r pre expose) (e : WalError) (st : Storage)
    (t : Nat) : LeaseStep s (pre.refuse r e st t) := by
  cases h with
  | submit | cancel | lease => exact .same rfl (ended_refuse _ e st t s) rfl
  | complete | die | retry => exact .ends_one rfl (ended_refuse _ e st t _) rfl

theorem Step.leaseStep (h : Step X P s s') : LeaseStep s s' := by
  cases h with
  | quiet h => exact .same h.leases (by rw [ended, h.journal, ended]) h.nextLeaseEpoch
  | ack h _ _ tick => exact h.leaseStep_ack _ tick
  | nack h _ _ tick => exact h.leaseStep_nack _ _ tick
  | requeue | dropEntry | acquire | returnPermit => exact .same rfl rfl rfl
  | forceShutdown =>
    obtain ⟨leases, _, _, ls, heq, h⟩ := forceShutdown_frame s
    refine .ends ls (ended_of_journal ?_) ?_ ?_ <;> rw [heq]
    exact h

/-! ## Ended leases -/

structure LeasesOpen (past : List LeaseId) (s : Coordinator) : Prop where
  used : ∀ l ∈ past ++ s.ended, l.epoch.toNat < s.nextLeaseEpoch.toNat
  active : ∀ id lease, s.leases.get id = some lease → lease.leaseId ∉ past ++ s.ended

theorem LeaseStep.leasesOpen (h : LeaseStep s s') (hopen : LeasesOpen past s)
    (hlog : Logged X config base s) (hplace : Placement config s) : LeasesOpen past s' := by
  cases h with
  | ends ls hended h hepoch =>
    refine ⟨fun l hl => ?_, fun id lease hl hmem => ?_⟩
    · rw [hended, ← List.append_assoc] at hl
      rw [hepoch]
      rcases List.mem_append.mp hl with hl | hl
      · exact hopen.used l hl
      · obtain ⟨id, lease, hget, rfl, _⟩ := h.gone l hl
        rw [hlog.epoch]
        exact Nat.lt_succ_of_le (lastLease_le (hplace.lastLease_eq base hget))
    · have hget := h.shrink id lease hl
      rw [hended, ← List.append_assoc] at hmem
      rcases List.mem_append.mp hmem with hmem | hmem
      · exact hopen.active id lease hget hmem
      · -- two jobs never share a lease, so it is the lease of this job that is gone
        obtain ⟨id', lease', hget', heq, hnone⟩ := h.gone _ hmem
        have hlast' := hplace.lastLease_eq base hget'
        rw [heq] at hlast'
        rw [← hlog.legal.lastLease_injective (hplace.lastLease_eq base hget) hlast', hl] at hnone
        cases hnone
  | grants id lease hlease hleases hended hepoch =>
    have hnext : s'.nextLeaseEpoch.toNat = s.nextLeaseEpoch.toNat + 1 := by
      rw [hepoch, checkedSucc_some (checkedSucc_of_lt hlog.epoch_lt)]
    refine ⟨fun l hl => ?_, fun id' lease' hl' => ?_⟩
    · rw [hended] at hl
      have := hopen.used l hl
      omega
    · rw [hended]
      rw [hleases, HashMap.get_insert] at hl'
      split at hl'
      · cases hl'
        intro hmem
        have := hopen.used _ hmem
        rw [hlease] at this
        exact Nat.lt_irrefl _ this
      · exact hopen.active id' lease' hl'

/-! ## The invariant of a process -/

/-- Everything that holds in a process which started in `s₀` on a log of records `base`,
after the leases `past` had ended. -/
structure Sound (X : Crates) (config : RuntimeConfig) (base : List WalRecord)
    (past : List LeaseId) (s₀ s : Coordinator) : Prop where
  placement : Placement config s
  accounts : Accounts config s₀ s
  logged : Logged X config base s
  leases : LeasesOpen past s

theorem Sound.step (h : Sound X config base past s₀ s) (hstep : Step X Fault.Clean s s') :
    Sound X config base past s₀ s' where
  placement := hstep.placement h.placement
  accounts := hstep.accounts h.accounts
  logged := hstep.logged h.logged h.placement h.accounts
  leases := hstep.leaseStep.leasesOpen h.leases h.logged h.placement

theorem Sound.steps (h : Sound X config base past s₀ s) (hsteps : Steps X Fault.Clean s s') :
    Sound X config base past s₀ s' := by
  induction hsteps with
  | refl => exact h
  | tail _ hstep ih => exact ih.step hstep

/-- A process that dies in an append leaves a legal log, with the record or without it, and
has changed nothing in memory that was logged. -/
theorem Sound.dies (h : Sound X config base past s₀ s) {A : Coordinator → WalRecord → Prop}
    {r : WalRecord} {file : List UInt8} (hdies : DiesOf X A s (.append r file) s') :
    (∃ landed torn seq, (landed = [] ∨ landed = [r]) ∧
        WriterThread.Holds X ⟨file, seq⟩ (base ++ s.acked ++ landed) torn ∧
        Legal config (base ++ s.acked ++ landed)) ∧
      s'.acked = s.acked ∧ s'.store = s.store ∧ s'.nextLeaseEpoch = s.nextLeaseEpoch ∧
      s'.globalStats = s.globalStats ∧
      ∀ l ∈ past ++ s'.ended, l.epoch.toNat < s.nextLeaseEpoch.toNat := by
  obtain @⟨_, expose, writer, written, _, hoffers, hstorage, _⟩ := hdies
  obtain ⟨w, hw, hholds⟩ := h.logged.holds
  rw [hstorage] at hw
  cases hw
  refine ⟨?_, ?_, hoffers.store, ?_, ?_, ?_⟩
  · obtain ⟨landed, torn, seq, hlanded, hh⟩ := hholds.interrupted r written
    refine ⟨landed, torn, seq, hlanded, hh, ?_⟩
    rcases hlanded with rfl | rfl
    · rw [List.append_nil]
      exact h.logged.legal
    · exact h.logged.legal.snoc (hoffers.allowed h.logged h.placement h.accounts)
  · exact hoffers.acked
  · exact hoffers.nextLeaseEpoch
  · exact hoffers.globalStats
  · have hopen := (hoffers.leaseStep_nack .truncatedFrame .memory 0).leasesOpen h.leases h.logged
      h.placement
    have hused := hopen.used
    rw [ended_refuse, hoffers.nextLeaseEpoch_nack] at hused
    exact hused

end Coordinator

end DurableQueue
