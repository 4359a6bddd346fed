import DurableQueue.Defs.SystemLaws

/-! Jobs of one queue are leased first in the order in which they were submitted. -/

namespace DurableQueue

/-! ## Order in a log -/

/-- If the record leases a job, no job of its queue that was submitted earlier still waits
for its first lease; unless the job itself has been leased before. -/
def InTurn (log : List WalRecord) (r : WalRecord) : Prop :=
  ∀ a b q, (r.leaseFor b).isSome → [a, b].Sublist (submittedIds log) →
    (replayed log).place a = some (.queued, q) → (replayed log).place b ≠ some (.queued, q)

inductive Fifo : List WalRecord → Prop
  | nil : Fifo []
  | snoc {log : List WalRecord} {r : WalRecord} (h : Fifo log) (hr : InTurn log r) :
      Fifo (log ++ [r])

variable {X : Crates} {config : RuntimeConfig} {log recs : List WalRecord}

theorem InTurn.of_not_lease {r : WalRecord} (h : ∀ id, r.leaseFor id = none) : InTurn log r := by
  intro a b q hb
  rw [h b] at hb
  cases hb

theorem Fifo.append (h : Fifo log) (hrecs : ∀ r ∈ recs, ∀ id, r.leaseFor id = none) :
    Fifo (log ++ recs) := by
  induction recs using List.reverseRecOn with
  | nil => rwa [List.append_nil]
  | append_singleton recs r ih =>
    rw [← List.append_assoc]
    exact (ih fun r' hr' => hrecs r' (by simp [hr'])).snoc (.of_not_lease (hrecs r (by simp)))

theorem Fifo.inTurn (h : Fifo log) {before after : List WalRecord} {r : WalRecord}
    (heq : log = before ++ r :: after) : InTurn before r := by
  induction h generalizing after with
  | nil => simp at heq
  | @snoc log r' h hr ih =>
    cases after using List.reverseRecOn with
    | nil =>
      obtain ⟨rfl, hr'⟩ := List.append_inj' heq rfl
      cases hr'
      exact hr
    | append_singleton after r'' =>
      rw [← List.cons_append, ← List.append_assoc] at heq
      exact ih (List.append_inj' heq rfl).1

theorem not_sublist_swap {α : Type} {l : List α} (hl : l.Nodup) {a b : α}
    (h : [a, b].Sublist l) : ¬[b, a].Sublist l := by
  intro h'
  have hab : a ≠ b := by
    rintro rfl
    exact List.nodup_iff_sublist.mp hl a h
  induction l with
  | nil => cases h
  | cons c l ih =>
    rw [List.nodup_cons] at hl
    cases h with
    | cons _ h =>
      cases h' with
      | cons _ h' => exact ih hl.2 h h'
      | cons_cons _ h' => exact hl.1 (h.subset (by simp))
    | cons_cons _ h =>
      cases h' with
      | cons _ h' => exact hl.1 (h'.subset (by simp))
      | cons_cons _ _ => exact hab rfl

/-! ## Order in a deque -/

def unleased (log : List WalRecord) (ids : List JobId) : List JobId :=
  ids.filter fun id => (lastLease log id).isNone

theorem unleased_append_sublist (log recs : List WalRecord) (ids : List JobId) :
    (unleased (log ++ recs) ids).Sublist (unleased log ids) := by
  refine List.monotone_filter_right ids fun id hid => ?_
  rw [lastLease_append, Option.isNone_iff_eq_none, Option.or_eq_none_iff] at hid
  rw [hid.2]
  rfl

namespace Coordinator

variable {P : Fault → Prop} {base : List WalRecord} {past : List LeaseId} {s₀ s s' : Coordinator}

def Ordered (log : List WalRecord) (s : Coordinator) : Prop :=
  ∀ q qs, s.queues.get q = some qs → (unleased log qs.ready).Sublist (submittedIds log)

/-- What a step may do to a deque: take jobs out, or append one that has just been submitted
or that waited for a retry. -/
inductive ReadyStep (s s' : Coordinator) (ready : List JobId) : List JobId → Prop
  | shrinks {ready' : List JobId} (h : ready'.Sublist ready) : ReadyStep s s' ready ready'
  | submits {id : JobId} {queue : QueueName} {spec : JobSpec} {t : UnixMillis}
      (h : s'.acked = s.acked ++ [.jobSubmitted id queue spec t]) :
      ReadyStep s s' ready (ready ++ [id])
  | requeues {id : JobId} {job : JobRecord} (hjob : s.store.get id = some job)
      (hstate : job.state = .retryWaiting) : ReadyStep s s' ready (ready ++ [id])

theorem readyStep_of_modify {q q' : String} {f : QueueState → QueueState} {qs' : QueueState}
    (hf : ∀ qs, s.queues.get q = some qs → ReadyStep s s' qs.ready (f qs).ready)
    (h : (s.queues.modify q f).get q' = some qs') :
    ∃ qs, s.queues.get q' = some qs ∧ ReadyStep s s' qs.ready qs'.ready := by
  rw [HashMap.get_modify] at h
  split at h
  · rename_i heq
    subst heq
    obtain ⟨qs, hqs, rfl⟩ := Option.map_eq_some_iff.mp h
    exact ⟨qs, hqs, hf qs hqs⟩
  · exact ⟨qs', h, .shrinks (List.Sublist.refl _)⟩

theorem cancelQueue_ready_sublist (id : JobId) (st : JobState) (qs : QueueState) :
    (cancelQueue id st qs).ready.Sublist qs.ready := by
  rw [cancelQueue_ready]
  split
  · exact List.filter_sublist
  · exact List.Sublist.refl _

theorem Offers.readyStep {r : WalRecord} {pre : Coordinator} {expose : Coordinator → Coordinator}
    (h : Offers s r pre expose) (st : Storage) (t : Nat) {q : String} {qs' : QueueState}
    (hqs' : (expose (pre.commit r st t)).queues.get q = some qs') :
    ∃ qs, s.queues.get q = some qs ∧
      ReadyStep s (expose (pre.commit r st t)) qs.ready qs'.ready := by
  have hacked := h.acked_ack st t
  cases h with
  | submit => exact readyStep_of_modify (fun qs _ => .submits hacked) hqs'
  | cancel =>
    rw [exposeCancel_eq] at hqs' ⊢
    exact readyStep_of_modify (fun qs _ => .shrinks (cancelQueue_ready_sublist _ _ qs)) hqs'
  | @lease id job queue qs leasedAt deadline =>
    change ((s.queues.modify queue _).modify queue _).get q = some qs' at hqs'
    rw [HashMap.modify_modify] at hqs'
    exact readyStep_of_modify (fun qs _ => .shrinks (List.tail_sublist _)) hqs'
  | complete | die | retry =>
    refine readyStep_of_modify (fun qs _ => .shrinks ?_) hqs'
    exact List.Sublist.refl _

theorem Step.readyStep (h : Step X P s s') {q : String} {qs' : QueueState}
    (hqs' : s'.queues.get q = some qs') :
    ∃ qs, s.queues.get q = some qs ∧ ReadyStep s s' qs.ready qs'.ready := by
  have hsame : s'.queues = s.queues →
      ∃ qs, s.queues.get q = some qs ∧ ReadyStep s s' qs.ready qs'.ready :=
    fun heq => ⟨qs', heq ▸ hqs', .shrinks (List.Sublist.refl _)⟩
  cases h with
  | quiet h => exact hsame h.queues
  | ack h _ _ tick => exact h.readyStep _ tick hqs'
  | nack h => cases h <;> exact hsame rfl
  | requeue _ hjob hstate => exact readyStep_of_modify (fun qs _ => .requeues hjob hstate) hqs'
  | dropEntry | acquire | returnPermit => exact hsame rfl
  | forceShutdown =>
    obtain ⟨_, _, _, _, heq, _⟩ := forceShutdown_frame s
    exact hsame (by rw [heq])

theorem ReadyStep.sublist {ready ready' : List JobId} (h : ReadyStep s s' ready ready')
    (hlog : Logged X config base s) (hrecs : s'.acked = s.acked ++ recs)
    (hready : (unleased (base ++ s.acked) ready).Sublist (submittedIds (base ++ s.acked))) :
    (unleased (base ++ s'.acked) ready').Sublist (submittedIds (base ++ s'.acked)) := by
  have hold : (unleased (base ++ s'.acked) ready).Sublist
      (submittedIds (base ++ s.acked)) := by
    rw [hrecs, ← List.append_assoc]
    exact (unleased_append_sublist _ _ _).trans hready
  have hids : submittedIds (base ++ s'.acked) =
      submittedIds (base ++ s.acked) ++ submittedIds recs := by
    rw [hrecs, ← List.append_assoc, submittedIds_append]
  rw [hids]
  cases h with
  | shrinks h => exact ((h.filter _).trans hold).trans (List.sublist_append_left _ _)
  | @submits id queue spec t h =>
    rw [hrecs, List.append_cancel_left_eq] at h
    rw [unleased, List.filter_append, h]
    exact hold.append List.filter_sublist
  | @requeues id job hjob hstate =>
    have hleased : (lastLease (base ++ s'.acked) id).isNone = false := by
      have hget := hlog.store.get_eq hjob (by simp [hstate])
      have hsome := (hlog.legal.history.waiting id job hget hstate).2
      rw [hrecs, ← List.append_assoc, lastLease_append]
      rw [Option.isSome_iff_exists] at hsome
      obtain ⟨l, hl⟩ := hsome
      rw [hl]
      cases lastLease recs id <;> rfl
    rw [unleased, List.filter_append, List.filter_singleton, hleased]
    rw [cond_false, List.append_nil]
    exact hold.trans (List.sublist_append_left _ _)

theorem Step.ordered (h : Step X P s s') (hlog : Logged X config base s)
    (hs : Ordered (base ++ s.acked) s) : Ordered (base ++ s'.acked) s' := by
  intro q qs' hqs'
  obtain ⟨qs, hqs, hstep⟩ := h.readyStep hqs'
  obtain ⟨recs, hrecs⟩ := Steps.acked_append (.single h)
  exact hstep.sublist hlog hrecs (hs q qs hqs)

theorem Offers.inTurn {r : WalRecord} {pre : Coordinator} {expose : Coordinator → Coordinator}
    (h : Offers s r pre expose) (hlog : Logged X config base s) (hplace : Placement config s)
    (hs : Ordered (base ++ s.acked) s) : InTurn (base ++ s.acked) r := by
  cases h with
  | @lease id job queue qs leasedAt deadline hqueue hfront hjob hstate =>
    intro a b q hb hsub ha hb'
    have hbid : id = b := by
      simp only [WalRecord.leaseFor] at hb
      split at hb
      · assumption
      · cases hb
    subst hbid
    -- both wait in the deque of `q`, the leased one at its front, and neither was ever leased
    have hnever : ∀ {id'}, (replayed (base ++ s.acked)).place id' = some (.queued, q) →
        (lastLease (base ++ s.acked) id').isNone := by
      intro id' hid'
      obtain ⟨job', hget, hp⟩ := Option.map_eq_some_iff.mp hid'
      rw [hlog.legal.history.queued id' job' hget (Prod.mk.inj hp).1]
      rfl
    have hfrom : s.store.place id = some (.queued, queue) :=
      (hplace.mem_ready queue qs id hqueue).mp (List.mem_of_mem_head? hfront)
    have hq : queue = q := by
      rw [hlog.store.place_queued hb'] at hfrom
      exact (Prod.mk.inj (Option.some.inj hfrom)).2.symm
    subst hq
    obtain ⟨rest, hready⟩ := List.head?_eq_some_iff.mp hfront
    have hmem : a ∈ rest := by
      have hmem := (hplace.mem_ready queue qs a hqueue).mpr (hlog.store.place_queued ha)
      rw [hready, List.mem_cons] at hmem
      refine hmem.resolve_left ?_
      rintro rfl
      exact List.nodup_iff_sublist.mp hlog.legal.nodup a hsub
    refine not_sublist_swap hlog.legal.nodup hsub (List.Sublist.trans ?_ (hs queue qs hqueue))
    rw [hready, unleased, List.filter_cons, if_pos (hnever hb')]
    refine List.Sublist.cons_cons _ (List.singleton_sublist.mpr ?_)
    exact List.mem_filter.mpr ⟨hmem, hnever ha⟩
  | submit | cancel | complete | die | retry => exact .of_not_lease fun _ => rfl

theorem Step.fifo (h : Step X P s s') (hlog : Logged X config base s)
    (hplace : Placement config s) (hs : Ordered (base ++ s.acked) s)
    (hfifo : Fifo (base ++ s.acked)) : Fifo (base ++ s'.acked) := by
  cases h with
  | quiet h => rwa [acked, h.journal]
  | ack h _ _ tick =>
    rw [h.acked_ack, ← List.append_assoc]
    exact hfifo.snoc (h.inTurn hlog hplace hs)
  | nack h _ _ tick => rwa [h.acked_nack]
  | requeue | dropEntry | acquire | returnPermit => exact hfifo
  | forceShutdown => rwa [acked_forceShutdown]

theorem Sound.steps_fifo (h : Sound X config base past s₀ s) (hsteps : Steps X Fault.Clean s s')
    (hs : Ordered (base ++ s.acked) s) (hfifo : Fifo (base ++ s.acked)) :
    Ordered (base ++ s'.acked) s' ∧ Fifo (base ++ s'.acked) := by
  induction hsteps with
  | refl => exact ⟨hs, hfifo⟩
  | tail hsteps hstep ih =>
    have hsound := h.steps hsteps
    exact ⟨hstep.ordered hsound.logged ih.1,
      hstep.fifo hsound.logged hsound.placement ih.1 ih.2⟩

theorem ordered_recovered {env : BootEnv} {rec : RecoveredState} {storage : Storage}
    {sems : HashMap String Semaphore} (h : Recovers env.recovery config log rec) :
    Ordered (log ++ reconciliationOf env.recovery log)
      (newWithRecovery env config storage sems (some rec)) := by
  intro q qs hqs
  rw [ready_eq_queuedJobs h.lists hqs, h.order, submittedIds_reconciled]
  exact List.filter_sublist.trans List.filter_sublist

end Coordinator

/-! ## Order in the system -/

def Sys.Ordered (log : List WalRecord) : Sys → Prop
  | .down _ _ => True
  | .up _ _ s => s.Ordered log

theorem Sys.Grows.fifo {sys sys' : Sys} (h : sys.Grows X config log sys' recs)
    (hat : sys.At X config log) (hfifo : Fifo log) (hordered : sys.Ordered log) :
    Fifo (log ++ recs) ∧ sys'.Ordered (log ++ recs) := by
  cases h with
  | @boot _ _ env _ _ _ h =>
    have hreconciles := reconciliationOf_reconciles env.recovery hat.2.1.nodup
    exact ⟨hfifo.append fun r hr => leaseFor_reconciles (hreconciles r hr),
      Coordinator.ordered_recovered h⟩
  | rest h => exact ⟨hfifo.append fun r hr => leaseFor_reconciles (h r hr), trivial⟩
  | @proc _ _ s s' _ hsteps hrecs =>
    obtain ⟨base, rfl, hsound, _⟩ := hat
    rw [List.append_assoc, ← hrecs]
    exact (hsound.steps_fifo hsteps hordered hfifo).symm
  | @ends _ _ _ s s' _ recs landed hsteps hrecs hlanded =>
    obtain ⟨base, rfl, hsound, _⟩ := hat
    refine ⟨?_, trivial⟩
    obtain ⟨hordered', hfifo'⟩ := hsound.steps_fifo hsteps hordered hfifo
    rw [← List.append_assoc, List.append_assoc base, ← hrecs]
    rcases hlanded with rfl | ⟨r, pre, expose, rfl, hoffers⟩
    · rwa [List.append_nil]
    · have hsound' := hsound.steps hsteps
      exact hfifo'.snoc (hoffers.inTurn hsound'.logged hsound'.placement hordered')

theorem Reachable.fifo (hX : X.Lawful) (hC : X.Compact) {sys : Sys}
    (h : Reachable X Fault.Clean config sys) : Fifo (sys.log X) ∧ sys.Ordered (sys.log X) := by
  induction h with
  | refl => exact ⟨.nil, trivial⟩
  | tail hreach hstep ih =>
    have hat := Reachable.atLog hX hC hreach
    obtain ⟨recs, hgrows, hat'⟩ := Sys.grows_step hX hC hstep hat
    rw [hat'.log_eq hX]
    exact hgrows.fifo hat ih.1 ih.2

/-! ## First leases -/

def WalRecord.Takes (id : JobId) (r : WalRecord) : Prop :=
  (∃ l n t, r = .jobLeased id l n t) ∨ ∃ t, r = .jobCancelled id t

theorem Legal.submitted (h : Legal config log) {id : JobId} {queue : QueueName} {spec : JobSpec}
    {t : UnixMillis} (hmem : .jobSubmitted id queue spec t ∈ log) :
    ∃ job, (replayed log).get id = some job ∧ job.queue = queue ∧
      (job.state = .queued ∨ ∃ r ∈ log, r.Takes id) := by
  induction h with
  | nil => cases hmem
  | @snoc log r h hr ih =>
    rw [replayed, MemoryStore.replay_snoc, MemoryStore.get_applyRecordForRecovery]
    rcases List.mem_append.mp hmem with hmem | hmem
    · obtain ⟨job, hjob, hqueue, hstate⟩ := ih hmem
      by_cases hid : id = r.jobId
      · subst hid
        rw [if_pos rfl, hjob, WalRecord.effect_some]
        refine ⟨_, rfl, ?_⟩
        have hlast : r ∈ log ++ [r] := List.mem_append_right _ (List.mem_singleton_self r)
        cases hr with
        | submit hfresh =>
          change (replayed log).get _ = _ at hjob
          rw [WalRecord.jobId, hfresh] at hjob
          cases hjob
        | lease => exact ⟨hqueue, .inr ⟨_, hlast, .inl ⟨_, _, _, rfl⟩⟩⟩
        | cancel => exact ⟨hqueue, .inr ⟨_, hlast, .inr ⟨_, rfl⟩⟩⟩
        | retry hjob' hrunning | complete hjob' hrunning | die hjob' hrunning =>
          cases hjob.symm.trans hjob'
          rw [hrunning] at hstate
          obtain ⟨r', hr', htakes⟩ := hstate.resolve_left (by simp)
          exact ⟨hqueue, .inr ⟨r', List.mem_append_left _ hr', htakes⟩⟩
      · rw [if_neg hid]
        refine ⟨job, hjob, hqueue, hstate.imp_right ?_⟩
        rintro ⟨r', hr', htakes⟩
        exact ⟨r', List.mem_append_left _ hr', htakes⟩
    · cases List.mem_singleton.mp hmem
      exact ⟨_, if_pos rfl, rfl, .inl rfl⟩

theorem submitted_before {log₁ rest before after : List WalRecord} {r : WalRecord} {b : JobId}
    {queue : QueueName} {spec : JobSpec} {t : UnixMillis}
    (hnodup : (submittedIds (log₁ ++ .jobSubmitted b queue spec t :: rest)).Nodup)
    (heq : log₁ ++ .jobSubmitted b queue spec t :: rest = before ++ r :: after)
    (hb : b ∈ submittedIds before) : ∃ m, before = log₁ ++ .jobSubmitted b queue spec t :: m := by
  have hnot : b ∉ submittedIds log₁ := by
    rw [submittedIds_append, List.nodup_append] at hnodup
    exact fun hmem => hnodup.2.2 b hmem b List.mem_cons_self rfl
  rcases List.append_eq_append_iff.mp heq with ⟨m, rfl, hm⟩ | ⟨m, rfl, _⟩
  · cases m with
    | nil =>
      rw [List.append_nil] at hb
      exact absurd hb hnot
    | cons r' m =>
      cases hm
      exact ⟨m, rfl⟩
  · rw [submittedIds_append] at hnot
    exact absurd (List.mem_append_left _ hb) hnot

/-- In every run, over any number of restarts: of two jobs of one queue, the one that was
submitted first is leased or cancelled before the other is leased for the first time. -/
theorem fifo_within_queue (hX : X.Lawful) (hC : X.Compact) {sys : Sys}
    (h : Reachable X Fault.Clean config sys) {a b : JobId} {queue : QueueName}
    {specA specB : JobSpec} {tA tB : UnixMillis} {p m rest : List WalRecord}
    (hsubmitted : sys.log X =
      p ++ .jobSubmitted a queue specA tA :: m ++ .jobSubmitted b queue specB tB :: rest)
    {before after : List WalRecord} {l : LeaseId} {n : UInt32} {t : UnixMillis}
    (hleased : sys.log X = before ++ .jobLeased b l n t :: after)
    (hfirst : ∀ r ∈ before, r.leaseFor b = none) : ∃ r ∈ before, r.Takes a := by
  have hlegal := (h.atLog hX hC).legal
  have hturn := (h.fifo hX hC).1.inTurn hleased
  have hsegment : before ++ [.jobLeased b l n t] <+: sys.log X := by
    rw [hleased]
    exact (List.prefix_append_right_inj before).mpr ⟨after, rfl⟩
  have hbefore : Legal config before :=
    (hlegal.initialSegment hsegment).initialSegment (List.prefix_append _ _)
  obtain ⟨jobB, hgetB, hstateB⟩ : ∃ job, (replayed before).get b = some job ∧
      (job.state = .queued ∨ job.state = .retryWaiting) := by
    cases (hlegal.initialSegment hsegment).last with
    | lease hjob hstate => exact ⟨_, hjob, hstate⟩
  -- the job waits for its first lease, so it was submitted before, and so was the other one
  have hqueuedB : jobB.state = .queued := by
    refine hstateB.resolve_right fun hwaiting => ?_
    have hsome := (hbefore.history.waiting b jobB hgetB hwaiting).2
    have hnone := lastLease_append_of_none hfirst []
    rw [List.nil_append, lastLease_nil] at hnone
    rw [hnone] at hsome
    cases hsome
  obtain ⟨m', rfl⟩ := submitted_before (hsubmitted ▸ hlegal.nodup)
    (hsubmitted.symm.trans hleased) (by
      rw [(tracked_replay hbefore.nodup).ids, (tracked_replay hbefore.nodup).store, hgetB]
      rfl)
  have hmemA : WalRecord.jobSubmitted a queue specA tA ∈
      p ++ .jobSubmitted a queue specA tA :: m ++ .jobSubmitted b queue specB tB :: m' := by
    simp
  have hmemB : WalRecord.jobSubmitted b queue specB tB ∈
      p ++ .jobSubmitted a queue specA tA :: m ++ .jobSubmitted b queue specB tB :: m' := by
    simp
  obtain ⟨jobA, hgetA, hqueueA, hwhy⟩ := hbefore.submitted hmemA
  obtain ⟨_, hgetB', hqueueB, _⟩ := hbefore.submitted hmemB
  cases hgetB.symm.trans hgetB'
  refine hwhy.resolve_left fun hqueuedA => hturn a b queue.asStr (by simp [WalRecord.leaseFor])
    ?_ ?_ ?_
  · have hA : [a].Sublist (submittedIds p ++ a :: submittedIds m) :=
      List.singleton_sublist.mpr (by simp)
    have hB : [b].Sublist (b :: submittedIds m') := List.singleton_sublist.mpr List.mem_cons_self
    rw [submittedIds_append, submittedIds_append]
    exact hA.append hB
  · rw [MemoryStore.place_of_get hgetA, hqueuedA, hqueueA]
  · rw [MemoryStore.place_of_get hgetB, hqueuedB, hqueueB]

namespace Coordinator

def pairConfig : RuntimeConfig := { mailConfig with queues := [⟨⟨"mail"⟩, 2⟩] }

def pairStart : Coordinator :=
  newWithRecovery mailBoot pairConfig (.wal WriterThread.fresh) (newSemaphores pairConfig) none

def pairFetch (s : Coordinator) : Coordinator :=
  after Postcard.crates pairConfig (mailEnv ⟨9⟩ .none) (.handle (.fetchWork 1)) s

def pairLeased : Coordinator :=
  pairFetch (pairFetch (submitJob pairConfig "mail" ⟨2⟩ (submitJob pairConfig "mail" ⟨1⟩ pairStart)))

section

variable {s : Coordinator}

theorem pairFetch_run (hrunning : s.exited = false) (hfresh : s.store.get ⟨9⟩ = none)
    (hexec : exec Postcard.crates pairConfig (mailEnv ⟨9⟩ .none) (.handle (.fetchWork 1)) s =
      .ok () (pairFetch s)) : Run Postcard.crates Fault.Clean pairConfig s (pairFetch s) := by
  refine .single (.exec ?_ hexec)
  exact ⟨hrunning, trivial, fun _ => trivial, fun _ => hfresh⟩

end

theorem pairLeased_reachable :
    Reachable Postcard.crates Fault.Clean pairConfig (.up [] pairStart pairLeased) := by
  have hboot : Reachable Postcard.crates Fault.Clean pairConfig (.up [] pairStart pairStart) :=
    .single (.boot (show startWal Postcard.crates mailBoot pairConfig none =
      (.ok pairStart, some headerBytes) from rfl))
  have hfirst := hboot.run (submitJob_run trivial "mail" ⟨1⟩ rfl (by decide) rfl rfl rfl rfl)
  have hsecond := Reachable.run hfirst
    (submitJob_run trivial "mail" ⟨2⟩ rfl (by decide) rfl rfl rfl rfl)
  exact Reachable.run (Reachable.run hsecond (pairFetch_run rfl rfl rfl)) (pairFetch_run rfl rfl rfl)

end Coordinator

/-- Two jobs are submitted and leased: the first one goes first. -/
theorem fifo_within_queue_pair : ∃ r ∈ [WalRecord.jobSubmitted ⟨1⟩ ⟨"mail"⟩ ⟨[1, 2], 3⟩ ⟨0⟩,
    .jobSubmitted ⟨2⟩ ⟨"mail"⟩ ⟨[1, 2], 3⟩ ⟨0⟩, .jobLeased ⟨1⟩ ⟨1⟩ 1 ⟨0⟩], r.Takes ⟨1⟩ := by
  have hlog : Sys.log Postcard.crates (.up [] Coordinator.pairStart Coordinator.pairLeased) =
      [.jobSubmitted ⟨1⟩ ⟨"mail"⟩ ⟨[1, 2], 3⟩ ⟨0⟩, .jobSubmitted ⟨2⟩ ⟨"mail"⟩ ⟨[1, 2], 3⟩ ⟨0⟩,
        .jobLeased ⟨1⟩ ⟨1⟩ 1 ⟨0⟩, .jobLeased ⟨2⟩ ⟨2⟩ 1 ⟨0⟩] := by
    decide +kernel
  have hleased : Sys.log Postcard.crates (.up [] Coordinator.pairStart Coordinator.pairLeased) =
      [.jobSubmitted ⟨1⟩ ⟨"mail"⟩ ⟨[1, 2], 3⟩ ⟨0⟩, .jobSubmitted ⟨2⟩ ⟨"mail"⟩ ⟨[1, 2], 3⟩ ⟨0⟩,
        .jobLeased ⟨1⟩ ⟨1⟩ 1 ⟨0⟩] ++ .jobLeased ⟨2⟩ ⟨2⟩ 1 ⟨0⟩ :: [] := hlog
  exact fifo_within_queue Postcard.crates_lawful Postcard.crates_compact
    Coordinator.pairLeased_reachable (p := []) (m := []) hlog hleased (by decide)

end DurableQueue
