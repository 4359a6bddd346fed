import DurableQueue.Defs.Coordinator.Steps

/-! What an acknowledged or a refused record changes, field by field, and what every step
leaves alone. -/

namespace DurableQueue

def GlobalStats.count (g : GlobalStats) : WalRecord → GlobalStats
  | .jobSubmitted .. => { g with submitted := g.submitted + 1 }
  | .jobLeased .. => g
  | .jobRetryScheduled .. => { g with retried := g.retried + 1 }
  | .jobCompleted .. => { g with completed := g.completed + 1 }
  | .jobDead .. => { g with dead := g.dead + 1 }
  | .jobCancelled .. => { g with cancelled := g.cancelled + 1 }

namespace Coordinator

variable {X : Crates} {P : Fault → Prop} {s s' : Coordinator}

@[simp] theorem diverged_commit (r : WalRecord) (st : Storage) (t : Nat) (s : Coordinator) :
    (s.commit r st t).diverged = s.diverged := by
  simp [diverged, commit, Event.asDiverged]

@[simp] theorem diverged_refuse (r : WalRecord) (e : WalError) (st : Storage) (t : Nat)
    (s : Coordinator) :
    (s.refuse r e st t).diverged = s.diverged := by
  simp [diverged, refuse, Event.asDiverged]

@[simp] theorem diverged_removeLease (id : JobId) (s : Coordinator) :
    (s.removeLease id).diverged = s.diverged := by
  simp only [diverged, removeLease]
  split <;> simp [Event.asDiverged]

namespace Offers

variable {r : WalRecord} {pre : Coordinator} {expose : Coordinator → Coordinator}
  (h : Offers s r pre expose) (e : WalError) (st : Storage) (t : Nat)

include h

theorem storage : pre.storage = s.storage := by
  cases h <;> rfl

theorem store : pre.store = s.store := by
  cases h <;> rfl

theorem diverged : pre.diverged = s.diverged := by
  cases h with
  | submit | cancel | lease => rfl
  | complete | die | retry => exact diverged_removeLease ..

theorem applies : s.store.applyRecord r = .ok (s.store.applyRecordForRecovery r) := by
  cases h with
  | submit => rfl
  | cancel hjob hlive =>
    exact MemoryStore.applyRecord_eq hjob (MemoryStore.isValidTransition_cancelled hlive)
  | lease _ _ hjob hstate => exact MemoryStore.applyRecord_eq hjob (by rw [hstate]; rfl)
  | complete _ hjob hstate => exact MemoryStore.applyRecord_eq hjob (by rw [hstate]; rfl)
  | die _ hjob hstate => exact MemoryStore.applyRecord_eq hjob (by rw [hstate]; rfl)
  | retry _ hjob hstate => exact MemoryStore.applyRecord_eq hjob (by rw [hstate]; rfl)

/-! ## An acknowledged record -/

theorem store_ack :
    (expose (pre.commit r st t)).store = s.store.applyRecordForRecovery r := by
  cases h with
  | cancel => rw [exposeCancel_eq]; rfl
  | submit | lease | complete | die | retry => rfl

theorem storage_ack : (expose (pre.commit r st t)).storage = st := by
  cases h with
  | cancel => rw [exposeCancel_eq]; rfl
  | submit | lease | complete | die | retry => rfl

theorem acked_ack : (expose (pre.commit r st t)).acked = s.acked ++ [r] := by
  cases h <;> simp

theorem failed_ack : (expose (pre.commit r st t)).failed = s.failed := by
  cases h <;> simp

theorem diverged_ack : (expose (pre.commit r st t)).diverged = s.diverged := by
  cases h with
  | cancel =>
    rw [exposeCancel_eq]
    change List.filterMap Event.asDiverged (if _ then _ else _) = _
    split
    · exact (diverged_removeLease ..).trans (diverged_commit ..)
    · exact diverged_commit ..
  | submit | lease => exact diverged_commit _ st t _
  | complete | die | retry => exact (diverged_commit _ st t _).trans (diverged_removeLease ..)

theorem nextLeaseEpoch_ack : (expose (pre.commit r st t)).nextLeaseEpoch =
    if r.leasedEpoch.isSome then s.nextLeaseEpoch + 1 else s.nextLeaseEpoch := by
  cases h with
  | cancel => rw [exposeCancel_eq]; rfl
  | submit | lease | complete | die | retry => rfl

theorem globalStats_ack :
    (expose (pre.commit r st t)).globalStats = s.globalStats.count r := by
  cases h with
  | cancel => rw [exposeCancel_eq]; rfl
  | submit | lease | complete | die | retry => rfl

theorem acked : pre.acked = s.acked := by
  cases h <;> simp

theorem failed : pre.failed = s.failed := by
  cases h <;> simp

theorem nextLeaseEpoch : pre.nextLeaseEpoch = s.nextLeaseEpoch := by
  cases h <;> rfl

theorem globalStats : pre.globalStats = s.globalStats := by
  cases h <;> rfl

theorem journal_prefix : s.journal <+: pre.journal := by
  cases h with
  | submit | cancel | lease => exact List.prefix_rfl
  | @complete id | @die id | @retry id =>
    obtain ⟨ls, hjournal, _⟩ := removeLease_ended id s
    exact hjournal ▸ List.prefix_append _ _

theorem journal_ack : s.journal <+: (expose (pre.commit r st t)).journal := by
  have hcommit : s.journal <+: (pre.commit r st t).journal :=
    h.journal_prefix.trans (List.prefix_append _ _)
  cases h with
  | submit | lease | complete | die | retry => exact hcommit
  | @cancel id =>
    rw [exposeCancel_eq]
    refine hcommit.trans ?_
    dsimp only
    split
    · obtain ⟨ls, hjournal, _⟩ := removeLease_ended id
        (s.commit (.jobCancelled id ‹_›) st t)
      exact hjournal ▸ List.prefix_append _ _
    · exact List.prefix_rfl

/-! ## A refused record -/

theorem store_nack : (pre.refuse r e st t).store = s.store :=
  h.store

theorem acked_nack : (pre.refuse r e st t).acked = s.acked := by
  rw [acked_refuse, h.acked]

theorem failed_nack : (pre.refuse r e st t).failed = s.failed ++ [r] := by
  rw [failed_refuse, h.failed]

theorem diverged_nack : (pre.refuse r e st t).diverged = s.diverged := by
  cases h <;> simp

theorem nextLeaseEpoch_nack : (pre.refuse r e st t).nextLeaseEpoch = s.nextLeaseEpoch :=
  h.nextLeaseEpoch

theorem globalStats_nack : (pre.refuse r e st t).globalStats = s.globalStats :=
  h.globalStats

end Offers

theorem acked_forceShutdown (s : Coordinator) : s.forceShutdown.exit.acked = s.acked := by
  obtain ⟨_, _, _, ls, heq, _⟩ := forceShutdown_frame s
  rw [heq]
  simp [acked, List.filterMap_map, Function.comp_def, Event.asAcked]

theorem failed_forceShutdown (s : Coordinator) : s.forceShutdown.exit.failed = s.failed := by
  obtain ⟨_, _, _, ls, heq, _⟩ := forceShutdown_frame s
  rw [heq]
  simp [failed, List.filterMap_map, Function.comp_def, Event.asFailed]

theorem diverged_forceShutdown (s : Coordinator) :
    s.forceShutdown.exit.diverged = s.diverged := by
  obtain ⟨_, _, _, ls, heq, _⟩ := forceShutdown_frame s
  rw [heq]
  simp [diverged, List.filterMap_map, Function.comp_def, Event.asDiverged]

theorem store_forceShutdown (s : Coordinator) : s.forceShutdown.exit.store = s.store := by
  obtain ⟨_, _, _, ls, heq, _⟩ := forceShutdown_frame s
  rw [heq]

/-! ## The round-robin cursor -/

theorem Offers.queueOrder_ack {r : WalRecord} {pre : Coordinator}
    {expose : Coordinator → Coordinator} (h : Offers s r pre expose) (st : Storage) (t : Nat) :
    (expose (pre.commit r st t)).queueOrder = s.queueOrder ∧
      (expose (pre.commit r st t)).nextQueueIdx = s.nextQueueIdx := by
  cases h with
  | cancel => rw [exposeCancel_eq]; exact ⟨rfl, rfl⟩
  | submit | lease | complete | die | retry => exact ⟨rfl, rfl⟩

theorem Step.queueOrder (h : Step X P s s') :
    s'.queueOrder = s.queueOrder ∧ (s.CursorInside → s'.CursorInside) := by
  cases h with
  | quiet h => exact ⟨h.queueOrder, h.cursor⟩
  | ack h _ _ tick =>
    obtain ⟨horder, hcursor⟩ := h.queueOrder_ack _ tick
    exact ⟨horder, fun hs => by rwa [CursorInside, horder, hcursor]⟩
  | nack h => cases h <;> exact ⟨rfl, fun hs => hs⟩
  | requeue | dropEntry | acquire | returnPermit => exact ⟨rfl, fun hs => hs⟩
  | forceShutdown =>
    obtain ⟨_, _, _, _, heq, _⟩ := forceShutdown_frame s
    rw [heq]
    exact ⟨rfl, fun hs => hs⟩

theorem Steps.queueOrder (h : Steps X P s s') : s'.queueOrder = s.queueOrder := by
  induction h with
  | refl => rfl
  | tail _ hstep ih => exact hstep.queueOrder.1.trans ih

theorem Steps.cursorInside (h : Steps X P s s') (hs : s.CursorInside) : s'.CursorInside := by
  induction h with
  | refl => exact hs
  | tail _ hstep ih => exact hstep.queueOrder.2 ih

/-! ## Memory and log -/

theorem Step.upToRequeue (h : Step X P s s') {base : MemoryStore}
    (hs : s.store.UpToRequeue (base.replay s.acked)) :
    s'.store.UpToRequeue (base.replay s'.acked) := by
  cases h with
  | quiet h =>
    rw [h.store, acked, h.journal]
    exact hs
  | ack h _ _ tick =>
    rw [h.store_ack, h.acked_ack, MemoryStore.replay_snoc]
    exact hs.apply _
  | nack h _ _ tick =>
    rw [h.store_nack, h.acked_nack]
    exact hs
  | requeue _ hjob hstate => exact hs.requeue hjob hstate
  | dropEntry | acquire | returnPermit => exact hs
  | forceShutdown =>
    rw [acked_forceShutdown, store_forceShutdown]
    exact hs

/-- No step finds the store unwilling to take a record that is already in the log. -/
theorem Step.diverged (h : Step X P s s') : s'.diverged = s.diverged := by
  cases h with
  | quiet h => rw [Coordinator.diverged, h.journal, Coordinator.diverged]
  | ack h _ _ tick => exact h.diverged_ack _ tick
  | nack h _ _ tick => exact h.diverged_nack _ _ tick
  | requeue | dropEntry | acquire | returnPermit => rfl
  | forceShutdown => exact diverged_forceShutdown s

theorem Step.journal_prefix (h : Step X P s s') : s.journal <+: s'.journal := by
  cases h with
  | quiet h => rw [h.journal]
  | ack h _ _ tick => exact h.journal_ack _ tick
  | nack h => exact h.journal_prefix.trans (List.prefix_append _ _)
  | requeue | dropEntry | acquire | returnPermit => exact List.prefix_rfl
  | forceShutdown =>
    obtain ⟨_, _, _, ls, heq, _⟩ := forceShutdown_frame s
    rw [heq]
    exact List.prefix_append _ _

theorem Steps.journal_prefix (h : Steps X P s s') : s.journal <+: s'.journal := by
  induction h with
  | refl => exact List.prefix_rfl
  | tail _ hstep ih => exact ih.trans hstep.journal_prefix

theorem Steps.acked_append (h : Steps X P s s') : ∃ recs, s'.acked = s.acked ++ recs := by
  obtain ⟨recs, hrecs⟩ := (Steps.journal_prefix h).filterMap Event.asAcked
  exact ⟨recs, hrecs.symm⟩

theorem Steps.replays (h : Steps X P s s') (hacked : s.acked = []) :
    s'.store.UpToRequeue (s.store.replay s'.acked) ∧ s'.diverged = s.diverged := by
  induction h with
  | refl =>
    rw [hacked]
    exact ⟨.refl s.store, rfl⟩
  | tail _ hstep ih => exact ⟨hstep.upToRequeue ih.1, hstep.diverged.trans ih.2⟩

end Coordinator

end DurableQueue
