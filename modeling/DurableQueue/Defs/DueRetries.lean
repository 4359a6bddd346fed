import DurableQueue.Defs.RuntimeLaws

/-! What `process_due_retries` does to the jobs, the deques and the heap. -/

namespace DurableQueue

namespace Coordinator

variable {X : Crates} {P : Fault → Prop} {config : RuntimeConfig} {env : Env} {now : Instant}
  {entry : RetryEntry} {due : List RetryEntry} {s₀ s s' : Coordinator}

/-- At time `now` the jobs of the entries `due` go back to their queues, one after the other,
and nothing else happens. -/
structure Requeues (now : Instant) (s s' : Coordinator) (due : List RetryEntry) : Prop where
  /-- they are the due entries whose jobs wait for a retry, each job once -/
  mem : ∀ e, e ∈ due ↔ e ∈ s.retryQueue ∧ e.availableAt.nanos ≤ now.nanos ∧
    ∃ q, s.store.place e.jobId = some (.retryWaiting, q)
  once : (due.map (·.jobId)).Nodup
  /-- in the order of their deadlines -/
  sorted : due.Pairwise fun e e' => e.availableAt.nanos ≤ e'.availableAt.nanos
  /-- their jobs become queued -/
  store : ∀ id, s'.store.get id =
    if id ∈ due.map (·.jobId) then (s.store.get id).map fun job => { job with state := .queued }
    else s.store.get id
  /-- and stand in that order behind the jobs that were in their deques before -/
  ready : ∀ q, (s'.queues.get q).map (·.ready) = (s.queues.get q).map fun qs =>
    qs.ready ++ (due.map (·.jobId)).filter fun id => (s.store.get id).any (·.queue.asStr = q)
  /-- no due entry is left in the heap -/
  heap : s'.retryQueue = s.retryQueue.filter fun e => now.nanos < e.availableAt.nanos
  frame : ∃ store queues retryQueue tick, s' =
    { s with store := store, queues := queues, retryQueue := retryQueue, tick := tick }

/-! ## One entry -/

def requeued (entry : RetryEntry) (job : JobRecord) (s : Coordinator) : Coordinator :=
  ({ s with
    retryQueue := s.retryQueue.erase entry
    store := s.store.insert entry.jobId { job with state := .queued } }
      : Coordinator).requeue entry.jobId job.queue.asStr

theorem popDueRetry_waiting {job : JobRecord} (hjob : s.store.get entry.jobId = some job)
    (hstate : job.state = .retryWaiting) :
    s.popDueRetry entry = requeued entry job s := by
  simp only [popDueRetry, hjob, hstate, MemoryStore.transitionToQueued_eq hjob hstate]
  rfl

theorem popDueRetry_stale (h : ∀ q, s.store.place entry.jobId ≠ some (.retryWaiting, q)) :
    s.popDueRetry entry = { s with retryQueue := s.retryQueue.erase entry } := by
  simp only [popDueRetry]
  cases hjob : s.store.get entry.jobId with
  | none => rfl
  | some job =>
    have hstate : job.state ≠ .retryWaiting := by
      intro hstate
      exact h job.queue.asStr (MemoryStore.place_eq_some.mpr ⟨job, hjob, hstate, rfl⟩)
    simp only [if_pos hstate]

theorem Placement.entry_unique (hs : Placement config s) {e e' : RetryEntry} {q : String}
    (he : e ∈ s.retryQueue) (he' : e' ∈ s.retryQueue) (heq : e'.jobId = e.jobId)
    (hplace : s.store.place e.jobId = some (.retryWaiting, q)) : e' = e := by
  have hone := hs.waiting e.jobId q hplace
  rw [List.count_eq_length_filter, List.filter_map, List.length_map, List.length_eq_one_iff] at hone
  obtain ⟨only, honly⟩ := hone
  have hmem : ∀ e₁ ∈ s.retryQueue, e₁.jobId = e.jobId → e₁ = only := by
    intro e₁ he₁ hid
    have hin : e₁ ∈ s.retryQueue.filter ((· == e.jobId) ∘ (·.jobId)) :=
      List.mem_filter.mpr ⟨he₁, by simp [hid]⟩
    rw [honly] at hin
    exact List.mem_singleton.mp hin
  rw [hmem e he rfl, hmem e' he' heq]

theorem filter_erase_due {l : List RetryEntry} (hdue : entry.availableAt.nanos ≤ now.nanos) :
    (l.erase entry).filter (fun e => now.nanos < e.availableAt.nanos) =
      l.filter fun e => now.nanos < e.availableAt.nanos := by
  rw [← List.erase_filter, List.erase_of_not_mem]
  intro hmem
  have hlate := (List.mem_filter.mp hmem).2
  rw [decide_eq_true_iff] at hlate
  omega

/-! ## The loop -/

theorem Requeues.none (h : ∀ e ∈ s.retryQueue, now.nanos < e.availableAt.nanos) (t : Nat) :
    Requeues now s { s with tick := t } [] where
  mem e := by
    refine ⟨fun he => absurd he List.not_mem_nil, ?_⟩
    rintro ⟨he, hdue, _⟩
    have hlate := h e he
    omega
  once := List.nodup_nil
  sorted := .nil
  store _ := rfl
  ready q := by simp
  heap := (List.filter_eq_self.mpr fun e he => decide_eq_true (h e he)).symm
  frame := ⟨s.store, s.queues, s.retryQueue, t, rfl⟩

theorem Requeues.drop (hdue : entry.availableAt.nanos ≤ now.nanos)
    (hstale : ∀ q, s.store.place entry.jobId ≠ some (.retryWaiting, q))
    (h : Requeues now { s with retryQueue := s.retryQueue.erase entry } s' due) :
    Requeues now s s' due where
  mem e := by
    rw [h.mem e]
    constructor
    · rintro ⟨he, hle, hplace⟩
      exact ⟨List.mem_of_mem_erase he, hle, hplace⟩
    · rintro ⟨he, hle, q, hplace⟩
      have hne : e ≠ entry := by
        rintro rfl
        exact hstale q hplace
      exact ⟨(List.mem_erase_of_ne hne).mpr he, hle, q, hplace⟩
  once := h.once
  sorted := h.sorted
  store := h.store
  ready := h.ready
  heap := h.heap.trans (filter_erase_due hdue)
  frame := by
    obtain ⟨store, queues, retryQueue, tick, rfl⟩ := h.frame
    exact ⟨store, queues, retryQueue, tick, rfl⟩

section

variable {job : JobRecord} (hs : Placement config s) (hentry : entry ∈ s.retryQueue)
  (hjob : s.store.get entry.jobId = some job) (hstate : job.state = .retryWaiting)

theorem get_requeued (id : JobId) : (requeued entry job s).store.get id =
    if id = entry.jobId then some { job with state := .queued } else s.store.get id :=
  HashMap.get_insert ..

theorem place_requeued (id : JobId) : (requeued entry job s).store.place id =
    if id = entry.jobId then some (.queued, job.queue.asStr) else s.store.place id := by
  rw [MemoryStore.place, get_requeued, MemoryStore.place]
  split <;> rfl

theorem ready_requeued (q : String) : ((requeued entry job s).queues.get q).map (·.ready) =
    (s.queues.get q).map fun qs =>
      qs.ready ++ if job.queue.asStr = q then [entry.jobId] else [] := by
  rw [requeued, requeue, updateQueue, HashMap.get_modify]
  by_cases hq : job.queue.asStr = q
  · subst hq
    rw [if_pos rfl, if_pos rfl, Option.map_map]
    rfl
  · rw [if_neg (Ne.symm hq), if_neg hq]
    simp

include hjob in
theorem queue_requeued (q : String) (id : JobId) :
    ((requeued entry job s).store.get id).any (·.queue.asStr = q) =
      (s.store.get id).any (·.queue.asStr = q) := by
  rw [get_requeued]
  split
  · rename_i heq
    rw [heq, hjob]
    rfl
  · rfl

include hs hentry hjob hstate

theorem Requeues.cons (hdue : entry.availableAt.nanos ≤ now.nanos)
    (hfirst : ∀ e ∈ s.retryQueue, entry.availableAt.nanos ≤ e.availableAt.nanos)
    (h : Requeues now (requeued entry job s) s' due) : Requeues now s s' (entry :: due) := by
  have hplace : s.store.place entry.jobId = some (.retryWaiting, job.queue.asStr) :=
    MemoryStore.place_eq_some.mpr ⟨job, hjob, hstate, rfl⟩
  -- the job waits no more, so the other entries are of other jobs
  have hother : ∀ e ∈ due, e.jobId ≠ entry.jobId := by
    intro e he heq
    obtain ⟨_, _, q, hwaits⟩ := (h.mem e).mp he
    rw [place_requeued, if_pos heq] at hwaits
    cases hwaits
  have hheap : ∀ e ∈ due, e ∈ s.retryQueue := fun e he =>
    List.mem_of_mem_erase ((h.mem e).mp he).1
  have hids : entry.jobId ∉ due.map (·.jobId) := by
    intro hmem
    obtain ⟨e, he, heq⟩ := List.mem_map.mp hmem
    exact hother e he heq
  refine
    { mem := ?_
      once := List.nodup_cons.mpr ⟨hids, h.once⟩
      sorted := List.pairwise_cons.mpr ⟨fun e he => hfirst e (hheap e he), h.sorted⟩
      store := ?_
      ready := ?_
      heap := h.heap.trans (filter_erase_due hdue)
      frame := ?_ }
  · intro e
    rw [List.mem_cons]
    constructor
    · rintro (rfl | he)
      · exact ⟨hentry, hdue, _, hplace⟩
      · obtain ⟨_, hle, q, hwaits⟩ := (h.mem e).mp he
        rw [place_requeued, if_neg (hother e he)] at hwaits
        exact ⟨hheap e he, hle, q, hwaits⟩
    · rintro ⟨he, hle, q, hwaits⟩
      by_cases heq : e.jobId = entry.jobId
      · exact Or.inl (hs.entry_unique hentry he heq hplace)
      · refine Or.inr ((h.mem e).mpr ⟨?_, hle, q, by rwa [place_requeued, if_neg heq]⟩)
        exact (List.mem_erase_of_ne fun h => heq (congrArg _ h)).mpr he
  · intro id
    rw [h.store id, get_requeued, List.map_cons]
    by_cases heq : id = entry.jobId
    · rw [heq, if_neg hids, if_pos rfl, if_pos List.mem_cons_self, hjob]
      rfl
    · simp [heq]
  · intro q
    have hqueue : (s.store.get entry.jobId).any (·.queue.asStr = q) =
        decide (job.queue.asStr = q) := by rw [hjob]; rfl
    have hsplit : ∀ l : List JobId, (entry.jobId :: l).filter
        (fun id => (s.store.get id).any (·.queue.asStr = q)) =
          (if job.queue.asStr = q then [entry.jobId] else []) ++
            l.filter fun id => (s.store.get id).any (·.queue.asStr = q) := by
      intro l
      rw [List.filter_cons, hqueue]
      by_cases hq : job.queue.asStr = q <;> simp [hq]
    rw [h.ready q]
    simp only [queue_requeued hjob]
    calc ((requeued entry job s).queues.get q).map (fun qs => qs.ready ++
          (due.map (·.jobId)).filter fun id => (s.store.get id).any (·.queue.asStr = q))
        = (((requeued entry job s).queues.get q).map (·.ready)).map (· ++
            (due.map (·.jobId)).filter fun id => (s.store.get id).any (·.queue.asStr = q)) := by
          rw [Option.map_map]
          rfl
      _ = _ := by
          rw [ready_requeued, Option.map_map, List.map_cons, hsplit]
          congr 1
          funext qs
          exact List.append_assoc ..
  · obtain ⟨store, queues, retryQueue, tick, rfl⟩ := h.frame
    exact ⟨store, queues, retryQueue, tick, rfl⟩

end

theorem Placement.popDueRetry (hs : Placement config s) (hentry : entry ∈ s.retryQueue)
    (hdue : entry.availableAt.nanos ≤ now.nanos)
    (hfirst : ∀ e ∈ s.retryQueue, entry.availableAt.nanos ≤ e.availableAt.nanos) :
    Placement config (s.popDueRetry entry) ∧
      (s.popDueRetry entry).retryQueue = s.retryQueue.erase entry ∧
      ∀ s' due, Requeues now (s.popDueRetry entry) s' due → ∃ due', Requeues now s s' due' := by
  by_cases hwaits : ∃ q, s.store.place entry.jobId = some (.retryWaiting, q)
  · obtain ⟨q, hplace⟩ := hwaits
    obtain ⟨job, hjob, hstate, _⟩ := MemoryStore.place_eq_some.mp hplace
    rw [popDueRetry_waiting hjob hstate]
    refine ⟨(requeue_moves hs hentry hjob hstate).placement hs, rfl, fun s' due h => ?_⟩
    exact ⟨entry :: due, h.cons hs hentry hjob hstate hdue hfirst⟩
  · rw [not_exists] at hwaits
    rw [popDueRetry_stale hwaits]
    refine ⟨dropEntry_placement hs hentry ?_, rfl, fun s' due h => ⟨due, h.drop hdue hwaits⟩⟩
    intro job hjob hstate
    exact hwaits job.queue.asStr (MemoryStore.place_eq_some.mpr ⟨job, hjob, hstate, rfl⟩)

theorem Requeues.of_tick {t : Nat} (h : Requeues now { s with tick := t } s' due) :
    Requeues now s s' due := by
  obtain ⟨store, queues, retryQueue, tick, heq⟩ := h.frame
  exact { h with frame := ⟨store, queues, retryQueue, tick, heq⟩ }

theorem dueRetriesLoop_requeues (hs : Placement config s) {rounds : Nat}
    (hrounds : s.retryQueue.length ≤ rounds) :
    wp (dueRetriesLoop env now rounds) (fun _ s' => ∃ due, Requeues now s s' due)
      (fun _ _ => False) s := by
  induction rounds generalizing s with
  | zero =>
    have hnil : s.retryQueue = [] := List.length_eq_zero_iff.mp (Nat.le_zero.mp hrounds)
    exact ⟨[], .none (by simp [hnil]) s.tick⟩
  | succ rounds ih =>
    refine (wp_bind _ _).mpr (wp_draw.mpr ((wp_bind _ _).mpr (wp_get.mpr ?_)))
    cases htop : ((env.order s.tick).arrange s.retryQueue).argmin (·.availableAt.nanos) with
    | none =>
      have hnil : s.retryQueue = [] := by
        rw [List.argmin_eq_none] at htop
        exact List.eq_nil_iff_forall_not_mem.mpr fun e he =>
          absurd (htop ▸ (IterOrder.mem_arrange _).mpr he) List.not_mem_nil
      exact ⟨[], .none (by simp [hnil]) (s.tick + 1)⟩
    | some entry =>
      have hentry : entry ∈ s.retryQueue := (IterOrder.mem_arrange _).mp (List.argmin_mem htop)
      have hfirst : ∀ e ∈ s.retryQueue, entry.availableAt.nanos ≤ e.availableAt.nanos :=
        fun e he => List.le_of_mem_argmin (f := (·.availableAt.nanos))
          ((IterOrder.mem_arrange _).mpr he) htop
      dsimp only
      split
      · rename_i hlate
        exact ⟨[], .none (fun e he => Nat.lt_of_lt_of_le hlate (hfirst e he)) (s.tick + 1)⟩
      · rename_i hdue
        have hlength : (s.retryQueue.erase entry).length ≤ rounds := by
          rw [List.length_erase_of_mem hentry]
          omega
        have ht : Placement config { s with tick := s.tick + 1 } := { hs with }
        obtain ⟨hplaced, hheap, hround⟩ := ht.popDueRetry hentry (Nat.not_lt.mp hdue) hfirst
        refine (wp_bind _ _).mpr ((wp_modify _).mpr ?_)
        refine wp_mono (ih hplaced (hheap ▸ hlength)) ?_ fun _ _ h => h
        rintro _ s' ⟨due, h⟩
        obtain ⟨due', h'⟩ := hround s' due h
        exact ⟨due', h'.of_tick⟩

theorem processDueRetries_requeues (hs : Placement config s) :
    wp (processDueRetries env) (fun _ s' => ∃ due, Requeues (env.instant s.tick) s s' due)
      (fun _ _ => False) s := by
  have ht : Placement config { s with tick := s.tick + 1 } := { hs with }
  refine (wp_bind _ _).mpr (wp_draw.mpr ((wp_bind _ _).mpr (wp_get.mpr ?_)))
  refine wp_mono (dueRetriesLoop_requeues ht le_rfl) ?_ fun _ _ h => h
  rintro _ s' ⟨due, h⟩
  exact ⟨due, h.of_tick⟩

/-! ## Stale entries -/

/-- The entry of a waiting job is that of its last retry: of the last one that this process
has logged, or else of the one that it found when it started. -/
def EntriesCurrent (s₀ s : Coordinator) : Prop :=
  ∀ e ∈ s.retryQueue, ∀ q, s.store.place e.jobId = some (.retryWaiting, q) →
    lastRetry s.acked e.jobId = some e.wallClockAvailableAt ∨
      lastRetry s.acked e.jobId = none ∧ e ∈ s₀.retryQueue

theorem Offers.entriesCurrent {r : WalRecord} {pre : Coordinator}
    {expose : Coordinator → Coordinator} (h : Offers s r pre expose) (hs : Placement config s)
    (hcurrent : EntriesCurrent s₀ s) (st : Storage) (t : Nat) :
    EntriesCurrent s₀ (expose (pre.commit r st t)) := by
  obtain ⟨q', hmoves⟩ := h.moves hs st t
  intro e he q hplace
  rw [h.acked_ack, lastRetry_snoc]
  rw [hmoves.place] at hplace
  by_cases hid : e.jobId = r.jobId
  · rw [if_pos hid] at hplace
    have hdst : r.dst = .retryWaiting := (Prod.mk.inj (Option.some.inj hplace)).1
    cases h with
    | submit | cancel | lease | complete | die => cases hdst
    | @retry id job lease availableAt deadline hlease hjob hstate =>
      rcases List.mem_cons.mp he with rfl | hold
      · exact Or.inl (by simp [WalRecord.retryFor])
      · -- the job was running, so it had no entry before
        have hrunning : s.store.place e.jobId = some (.running, job.queue.asStr) := by
          rw [show e.jobId = id from hid, MemoryStore.place_of_get hjob, hstate]
        obtain ⟨q, hwaits | hcancelled⟩ := hs.heap e hold
        · rw [hrunning] at hwaits
          cases hwaits
        · rw [hrunning] at hcancelled
          cases hcancelled
  · rw [if_neg hid] at hplace
    rw [WalRecord.retryFor_other hid, Option.none_or]
    exact hcurrent e (hmoves.heap_other e he hid) q hplace

theorem Step.entriesCurrent (h : Step X P s s') (hs : Placement config s)
    (hcurrent : EntriesCurrent s₀ s) : EntriesCurrent s₀ s' := by
  cases h with
  | quiet h =>
    intro e he q hplace
    rw [h.retryQueue] at he
    rw [h.store] at hplace
    rw [acked, h.journal]
    exact hcurrent e he q hplace
  | ack h _ _ tick => exact h.entriesCurrent hs hcurrent _ tick
  | nack h =>
    intro e he q hplace
    rw [h.store_nack] at hplace
    rw [h.acked_nack]
    refine hcurrent e ?_ q hplace
    cases h <;> exact he
  | @requeue entry job hentry hjob hstate =>
    intro e he q hplace
    have hplace' := (requeue_moves hs hentry hjob hstate).place e.jobId
    rw [hplace] at hplace'
    split at hplace'
    · cases hplace'
    · exact hcurrent e (List.mem_of_mem_erase he) q hplace'.symm
  | dropEntry => exact fun e he => hcurrent e (List.mem_of_mem_erase he)
  | acquire | returnPermit => exact hcurrent
  | forceShutdown =>
    obtain ⟨_, _, _, _, heq, _⟩ := forceShutdown_frame s
    intro e he q hplace
    rw [store_forceShutdown] at hplace
    rw [acked_forceShutdown]
    rw [heq] at he
    exact hcurrent e he q hplace

theorem Steps.entriesCurrent (h : Steps X P s s') (hs : Placement config s)
    (hcurrent : EntriesCurrent s₀ s) : EntriesCurrent s₀ s' := by
  induction h with
  | refl => exact hcurrent
  | tail hsteps hstep ih => exact hstep.entriesCurrent (Steps.placement hsteps hs) ih

theorem Started.entriesCurrent (h : Started X config s₀) : EntriesCurrent s₀ s₀ := by
  intro e he q _
  rw [acked, h.journal]
  exact Or.inr ⟨rfl, he⟩

/-! ## Due retries -/

def scheduledAt (s : Coordinator) (id : JobId) : Option Instant :=
  (s.retryQueue.find? (·.jobId = id)).map (·.availableAt)

theorem Placement.scheduledAt (hs : Placement config s) {e : RetryEntry} {q : String}
    (he : e ∈ s.retryQueue) (hplace : s.store.place e.jobId = some (.retryWaiting, q)) :
    s.scheduledAt e.jobId = some e.availableAt := by
  cases hfind : s.retryQueue.find? (·.jobId = e.jobId) with
  | none =>
    have hnot := List.find?_eq_none.mp hfind e he
    simp at hnot
  | some e' =>
    have hid : e'.jobId = e.jobId := by simpa using List.find?_some hfind
    rw [Coordinator.scheduledAt, hfind,
      hs.entry_unique he (List.mem_of_find?_eq_some hfind) hid hplace]
    rfl

theorem Requeues.mem_ids (h : Requeues now s s' due) (hs : Placement config s) (id : JobId) :
    id ∈ due.map (·.jobId) ↔ (∃ q, s.store.place id = some (.retryWaiting, q)) ∧
      ∃ t, s.scheduledAt id = some t ∧ t.nanos ≤ now.nanos := by
  rw [List.mem_map]
  constructor
  · rintro ⟨e, he, rfl⟩
    obtain ⟨hheap, hdue, q, hplace⟩ := (h.mem e).mp he
    exact ⟨⟨q, hplace⟩, _, hs.scheduledAt hheap hplace, hdue⟩
  · rintro ⟨⟨q, hplace⟩, t, ht, hdue⟩
    obtain ⟨e, hfind, rfl⟩ := Option.map_eq_some_iff.mp ht
    obtain rfl : e.jobId = id := by simpa using List.find?_some hfind
    exact ⟨e, (h.mem e).mpr ⟨List.mem_of_find?_eq_some hfind, hdue, q, hplace⟩, rfl⟩

/-- `process_due_retries` moves exactly the waiting jobs whose time has come, each once and
in the order of their deadlines, to the end of its own deque; it changes no other job, and
each job moves through the entry of its last retry. -/
theorem due_retries_exact (hstart : Started X config s₀) (hrun : Run X P config s₀ s) (env : Env) :
    ∃ s' due, processDueRetries env s = .ok () s' ∧ Requeues (env.instant s.tick) s s' due ∧
      (∀ id, id ∈ due.map (·.jobId) ↔ (∃ q, s.store.place id = some (.retryWaiting, q)) ∧
        ∃ t, s.scheduledAt id = some t ∧ t.nanos ≤ (env.instant s.tick).nanos) ∧
      (∀ e ∈ due, ∃ job, s.store.get e.jobId = some job ∧ job.state = .retryWaiting ∧
        (s.queues.get job.queue.asStr).isSome ∧
        (lastRetry s.acked e.jobId = some e.wallClockAvailableAt ∨
          lastRetry s.acked e.jobId = none ∧ e ∈ s₀.retryQueue)) ∧
      s'.leases = s.leases ∧ s'.permits = s.permits ∧ s'.semaphores = s.semaphores := by
  have hs := hstart.run_placement hrun
  have hcurrent :=
    Steps.entriesCurrent (hstart.run_steps hrun) hstart.placement hstart.entriesCurrent
  obtain ⟨⟨⟩, s', hprocess, due, h⟩ := wp_exists_ok (processDueRetries_requeues hs)
  refine ⟨s', due, hprocess, h, h.mem_ids hs, fun e he => ?_, ?_⟩
  · obtain ⟨hheap, _, q, hplace⟩ := (h.mem e).mp he
    obtain ⟨job, hjob, hstate, rfl⟩ := MemoryStore.place_eq_some.mp hplace
    exact ⟨job, hjob, hstate, hs.configured _ _ _ hplace rfl, hcurrent e hheap _ hplace⟩
  · obtain ⟨store, queues, retryQueue, tick, rfl⟩ := h.frame
    exact ⟨rfl, rfl, rfl⟩

/-- A second after its first attempt the job is back in its queue. -/
theorem due_retries_exact_mail : ∃ s' due,
    processDueRetries { mailEnv ⟨2⟩ .none with instant := fun _ => ⟨10 ^ 9⟩ } mailRetried =
      .ok () s' ∧ Requeues ⟨10 ^ 9⟩ mailRetried s' due ∧ ⟨1⟩ ∈ due.map (·.jobId) := by
  obtain ⟨s', due, hprocess, h, hids, _⟩ := due_retries_exact (.fresh mailBoot _ _)
    ((mailLeased_run (fun _ => True) trivial).tail (mailRetried_step _ trivial))
    { mailEnv ⟨2⟩ .none with instant := fun _ => ⟨10 ^ 9⟩ }
  refine ⟨s', due, hprocess, h, (hids ⟨1⟩).mpr ⟨⟨"mail", by decide +kernel⟩, ⟨10 ^ 8⟩, ?_, ?_⟩⟩
  · decide +kernel
  · decide

end Coordinator

end DurableQueue
