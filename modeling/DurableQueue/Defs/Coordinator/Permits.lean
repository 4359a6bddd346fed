import DurableQueue.Defs.Config
import DurableQueue.Defs.Coordinator.Effects

/-! Where the capacity of a queue is: in its semaphore, with submissions on their way, in
the permit map, or with the jobs the process started with. -/

namespace DurableQueue

namespace Coordinator

def availableIn (s : Coordinator) (q : String) : Nat :=
  ((s.semaphores.get q).map (·.available)).getD 0

/-- The permits of submissions that are not answered yet. -/
def inFlightIn (s : Coordinator) (q : String) : Nat := s.inFlight.countP (·.queue = q)

def permitsIn (s : Coordinator) (q : String) : Nat := s.permits.count (·.queue = q)

variable {X : Crates} {P : Fault → Prop} {config : RuntimeConfig} {s₀ s s' : Coordinator}

theorem available_release (permit : OwnedSemaphorePermit) (sems : HashMap String Semaphore)
    {q : String} (hq : (sems.get q).isSome) :
    (((release permit sems).get q).map (·.available)).getD 0 =
      ((sems.get q).map (·.available)).getD 0 + if permit.queue = q then 1 else 0 := by
  obtain ⟨sem, hsem⟩ := Option.isSome_iff_exists.mp hq
  rw [release, HashMap.get_modify]
  by_cases heq : q = permit.queue
  · subst heq
    simp [hsem]
  · simp [heq, Ne.symm heq]

theorem isSome_release (permit : OwnedSemaphorePermit) (sems : HashMap String Semaphore)
    (q : String) : ((release permit sems).get q).isSome = (sems.get q).isSome :=
  HashMap.isSome_get_modify ..

theorem removePermit_conserves (id : JobId) {q : String} (hq : (s.semaphores.get q).isSome) :
    (s.removePermit id).availableIn q + (s.removePermit id).permitsIn q =
      s.availableIn q + s.permitsIn q := by
  cases hget : s.permits.get id with
  | none =>
    have hcount := HashMap.count_erase_none (fun p : OwnedSemaphorePermit => p.queue = q)
      s.permits id hget
    simp only [availableIn, permitsIn, removePermit, hget, hcount]
  | some permit =>
    have hcount := HashMap.count_erase (fun p : OwnedSemaphorePermit => p.queue = q)
      s.permits id permit hget
    have havail := available_release permit s.semaphores hq
    simp only [decide_eq_true_eq] at hcount
    simp only [availableIn, permitsIn, removePermit, hget]
    omega

theorem removePermit_of_none {id : JobId} (h : s.permits.get id = none) :
    (s.removePermit id).semaphores = s.semaphores := by
  simp only [removePermit, h]

theorem isSome_removePermit (id : JobId) (q : String) :
    ((s.removePermit id).semaphores.get q).isSome = (s.semaphores.get q).isSome := by
  simp only [removePermit]
  split
  · exact isSome_release ..
  · rfl

theorem countP_erase_permit {permit : OwnedSemaphorePermit} {l : List OwnedSemaphorePermit}
    (h : permit ∈ l) (q : String) :
    (l.erase permit).countP (·.queue = q) + (if permit.queue = q then 1 else 0) =
      l.countP (·.queue = q) := by
  rw [((List.perm_cons_erase h).countP_eq _), List.countP_cons]
  simp

namespace Offers

variable {r : WalRecord} {pre : Coordinator} {expose : Coordinator → Coordinator}
  (h : Offers s r pre expose) (st : Storage) (t : Nat)

include h

theorem permits_submit (hr : r.isSubmitted) :
    s.store.get r.jobId = none ∧ ∃ permit ∈ s.inFlight,
      (∃ id queue spec createdAt, r = .jobSubmitted id queue spec createdAt ∧
        permit.queue = queue.asStr) ∧
      (expose (pre.commit r st t)).permits = s.permits.insert r.jobId permit ∧
      (expose (pre.commit r st t)).inFlight = s.inFlight.erase permit ∧
      (expose (pre.commit r st t)).semaphores = (s.removePermit r.jobId).semaphores := by
  cases h with
  | submit hqueue hfresh hpermit hfor =>
    exact ⟨hfresh, _, hpermit, ⟨_, _, _, _, rfl, hfor⟩, rfl, rfl, rfl⟩
  | cancel | lease | complete | die | retry => cases hr

theorem permits_terminal (hr : r.dst.isTerminal) :
    (expose (pre.commit r st t)).permits = s.permits.erase r.jobId ∧
      (expose (pre.commit r st t)).inFlight = s.inFlight ∧
      (expose (pre.commit r st t)).semaphores = (s.removePermit r.jobId).semaphores := by
  cases h with
  | cancel => rw [exposeCancel_eq]; exact ⟨rfl, rfl, rfl⟩
  | complete | die => exact ⟨rfl, rfl, rfl⟩
  | submit | lease | retry => cases hr

theorem permits_other (hsub : r.isSubmitted = false) (hr : r.dst.isTerminal = false) :
    (expose (pre.commit r st t)).permits = s.permits ∧
      (expose (pre.commit r st t)).inFlight = s.inFlight ∧
      (expose (pre.commit r st t)).semaphores = s.semaphores := by
  cases h with
  | lease | retry => exact ⟨rfl, rfl, rfl⟩
  | submit => cases hsub
  | cancel | complete | die => cases hr

theorem job (hsub : r.isSubmitted = false) :
    ∃ job, s.store.get r.jobId = some job ∧ job.state.isTerminal = false := by
  cases h with
  | submit => cases hsub
  | cancel hjob hlive => exact ⟨_, hjob, hlive⟩
  | lease _ _ hjob hstate | complete _ hjob hstate | die _ hjob hstate | retry _ hjob hstate =>
    exact ⟨_, hjob, by rw [hstate]; rfl⟩

theorem permits_nack (e : WalError) (st : Storage) (t : Nat) :
    (pre.refuse r e st t).permits = s.permits ∧ (pre.refuse r e st t).inFlight = s.inFlight ∧
      (pre.refuse r e st t).semaphores = s.semaphores := by
  cases h <;> exact ⟨rfl, rfl, rfl⟩

end Offers

/-! ## The invariant -/

/-- Every unit of capacity has one place, counted from the start `s₀` of the process.  The
jobs the process started with have no permit in the map; what they occupy was taken out of
the semaphores at the start. -/
structure Accounts (config : RuntimeConfig) (s₀ s : Coordinator) : Prop where
  semaphores : ∀ q, (s.semaphores.get q).isSome = (config.capacity q).isSome
  conserved : ∀ q c, config.capacity q = some c →
    s.availableIn q + s.inFlightIn q + s.permitsIn q + s₀.store.liveIn q = c
  permit : ∀ id p, s.permits.get id = some p → s₀.store.get id = none ∧
    ∃ job, s.store.get id = some job ∧ job.state.isTerminal = false ∧ job.queue.asStr = p.queue
  held : ∀ id job, s.store.get id = some job → job.state.isTerminal = false →
    s₀.store.get id = none → (s.permits.get id).isSome
  kept : ∀ id job₀, s₀.store.get id = some job₀ → ∃ job, s.store.get id = some job ∧
    job.queue = job₀.queue ∧ (job₀.state.isTerminal → job.state.isTerminal)
  ended : ∀ r ∈ s.acked, r.dst.isTerminal →
    ∃ job, s.store.get r.jobId = some job ∧ job.state.isTerminal
  ending : ∀ id job₀ job, s₀.store.get id = some job₀ → job₀.state.isTerminal = false →
    s.store.get id = some job → job.state.isTerminal → ∃ r ∈ s.acked, r.jobId = id ∧ r.dst.isTerminal

def SameLives (s s' : Coordinator) : Prop :=
  ∀ id, (s'.store.get id).map (fun job => (job.queue, job.state.isTerminal)) =
    (s.store.get id).map (fun job => (job.queue, job.state.isTerminal))

theorem SameLives.of_store (h : s'.store = s.store) : SameLives s s' := fun id => by rw [h]

theorem SameLives.symm (h : SameLives s s') : SameLives s' s := fun id => (h id).symm

theorem SameLives.get (h : SameLives s s') {id : JobId} {job : JobRecord}
    (hget : s.store.get id = some job) : ∃ job', s'.store.get id = some job' ∧
      job'.queue = job.queue ∧ job'.state.isTerminal = job.state.isTerminal := by
  have hid := h id
  rw [hget] at hid
  obtain ⟨job', hget', heq⟩ := Option.map_eq_some_iff.mp hid
  exact ⟨job', hget', (Prod.mk.inj heq).1, (Prod.mk.inj heq).2⟩

theorem Accounts.of_sameLives (h : Accounts config s₀ s) (hlives : SameLives s s')
    (hpermits : s'.permits = s.permits)
    (hsome : ∀ q, (s'.semaphores.get q).isSome = (s.semaphores.get q).isSome)
    (hunits : ∀ q, (s.semaphores.get q).isSome →
      s'.availableIn q + s'.inFlightIn q = s.availableIn q + s.inFlightIn q)
    (hacked : ∀ r, r.dst.isTerminal → (r ∈ s'.acked ↔ r ∈ s.acked)) :
    Accounts config s₀ s' where
  semaphores q := (hsome q).trans (h.semaphores q)
  conserved q c hc := by
    have hold := h.conserved q c hc
    have := hunits q (by rw [h.semaphores, hc]; rfl)
    rw [permitsIn, hpermits]
    rw [permitsIn] at hold
    omega
  permit id p hp := by
    rw [hpermits] at hp
    obtain ⟨hnone, job, hjob, hlive, hq⟩ := h.permit id p hp
    obtain ⟨job', hjob', hq', hlive'⟩ := hlives.get hjob
    exact ⟨hnone, job', hjob', hlive'.trans hlive, by rw [hq', hq]⟩
  held id job hjob hlive hnone := by
    obtain ⟨job', hjob', _, hlive'⟩ := hlives.symm.get hjob
    rw [hpermits]
    exact h.held id job' hjob' (hlive'.trans hlive) hnone
  kept id job₀ hjob₀ := by
    obtain ⟨job, hjob, hq, hterm⟩ := h.kept id job₀ hjob₀
    obtain ⟨job', hjob', hq', hlive'⟩ := hlives.get hjob
    exact ⟨job', hjob', hq'.trans hq, fun ht => hlive' ▸ hterm ht⟩
  ended r hr hterm := by
    obtain ⟨job, hjob, hjobterm⟩ := h.ended r ((hacked r hterm).mp hr) hterm
    obtain ⟨job', hjob', _, hlive'⟩ := hlives.get hjob
    exact ⟨job', hjob', hlive' ▸ hjobterm⟩
  ending id job₀ job hjob₀ hlive₀ hjob hterm := by
    obtain ⟨job', hjob', _, hlive'⟩ := hlives.symm.get hjob
    obtain ⟨r, hr, hid, hrterm⟩ := h.ending id job₀ job' hjob₀ hlive₀ hjob' (hlive' ▸ hterm)
    exact ⟨r, (hacked r hrterm).mpr hr, hid, hrterm⟩

/-! ## Steps -/

section

variable {r : WalRecord} {pre : Coordinator} {expose : Coordinator → Coordinator}

theorem Offers.get_ack (h : Offers s r pre expose) (st : Storage) (t : Nat) {id : JobId}
    (hid : id ≠ r.jobId) : (expose (pre.commit r st t)).store.get id = s.store.get id := by
  rw [h.store_ack, MemoryStore.get_applyRecordForRecovery, if_neg hid]

theorem Offers.get_ack_self (h : Offers s r pre expose) (st : Storage) (t : Nat)
    {job : JobRecord} (hjob : s.store.get r.jobId = some job) :
    (expose (pre.commit r st t)).store.get r.jobId = some (r.update job) := by
  rw [h.store_ack, MemoryStore.get_applyRecordForRecovery, if_pos rfl, hjob,
    WalRecord.effect_some]

theorem Offers.sameLives (h : Offers s r pre expose) (hsub : r.isSubmitted = false)
    (hr : r.dst.isTerminal = false) (st : Storage) (t : Nat) :
    SameLives s (expose (pre.commit r st t)) := by
  intro id
  obtain ⟨job, hjob, hlive⟩ := h.job hsub
  by_cases hid : id = r.jobId
  · rw [hid, h.get_ack_self st t hjob, hjob]
    simp [(WalRecord.update_queue hsub job).1, hr, hlive]
  · rw [h.get_ack st t hid]

theorem Offers.submit_accounts (h : Offers s r pre expose) (hr : r.isSubmitted)
    (hs : Accounts config s₀ s) (st : Storage) (t : Nat) :
    Accounts config s₀ (expose (pre.commit r st t)) := by
  obtain ⟨hfresh, permit, hmem, ⟨i, queue, spec, createdAt, heq, hfor⟩, hpermits, hinFlight,
    hsems⟩ := h.permits_submit st t hr
  have hi : r.jobId = i := by rw [heq]; rfl
  rw [hi] at hfresh hpermits hsems
  have hnone : s.permits.get i = none := by
    cases hget : s.permits.get i with
    | none => rfl
    | some p =>
      obtain ⟨_, job, hjob, _⟩ := hs.permit i p hget
      rw [hfresh] at hjob
      cases hjob
  have hnone₀ : s₀.store.get i = none := by
    cases hget : s₀.store.get i with
    | none => rfl
    | some job₀ =>
      obtain ⟨job, hjob, _⟩ := hs.kept i job₀ hget
      rw [hfresh] at hjob
      cases hjob
  have hself : (expose (pre.commit r st t)).store.get i =
      some (JobRecord.new i queue spec createdAt) := by
    rw [h.store_ack, heq]
    exact HashMap.get_insert_self ..
  have hother : ∀ {id}, id ≠ i → (expose (pre.commit r st t)).store.get id = s.store.get id :=
    fun hid => h.get_ack st t (hi ▸ hid)
  rw [removePermit_of_none hnone] at hsems
  refine
    { semaphores := fun q => by rw [hsems, hs.semaphores]
      conserved := fun q c hc => ?_
      permit := fun id p hp => ?_
      held := fun id job hjob hlive hnone' => ?_
      kept := fun id job₀ hjob₀ => ?_
      ended := fun r' hr' hterm => ?_
      ending := fun id job₀ job hjob₀ hlive₀ hjob hterm => ?_ }
  · have hold := hs.conserved q c hc
    have hcount := HashMap.count_insert_new (fun p : OwnedSemaphorePermit => p.queue = q)
      s.permits i permit hnone
    have herase := countP_erase_permit hmem q
    simp only [decide_eq_true_eq] at hcount
    rw [availableIn, inFlightIn, permitsIn, hsems, hinFlight, hpermits]
    rw [availableIn, inFlightIn, permitsIn] at hold
    omega
  · rw [hpermits, HashMap.get_insert] at hp
    split at hp
    · rename_i hid
      cases hp
      rw [hid]
      exact ⟨hnone₀, _, hself, rfl, hfor.symm⟩
    · rename_i hid
      obtain ⟨h₀, job, hjob, hlive, hq⟩ := hs.permit id p hp
      exact ⟨h₀, job, (hother hid).trans hjob, hlive, hq⟩
  · rw [hpermits, HashMap.get_insert]
    split
    · rfl
    · rename_i hid
      rw [hother hid] at hjob
      exact hs.held id job hjob hlive hnone'
  · have hid : id ≠ i := by
      rintro rfl
      rw [hnone₀] at hjob₀
      cases hjob₀
    obtain ⟨job, hjob, hkept⟩ := hs.kept id job₀ hjob₀
    exact ⟨job, (hother hid).trans hjob, hkept⟩
  · rw [h.acked_ack, List.mem_append, List.mem_singleton] at hr'
    rcases hr' with hr' | rfl
    · obtain ⟨job, hjob, hjobterm⟩ := hs.ended r' hr' hterm
      have hid : r'.jobId ≠ i := by
        intro hid
        rw [hid, hfresh] at hjob
        cases hjob
      exact ⟨job, (hother hid).trans hjob, hjobterm⟩
    · rw [heq] at hterm
      cases hterm
  · have hid : id ≠ i := by
      rintro rfl
      rw [hnone₀] at hjob₀
      cases hjob₀
    rw [hother hid] at hjob
    obtain ⟨r', hr', hid', hterm'⟩ := hs.ending id job₀ job hjob₀ hlive₀ hjob hterm
    exact ⟨r', by rw [h.acked_ack]; exact List.mem_append_left _ hr', hid', hterm'⟩

theorem Offers.terminal_accounts (h : Offers s r pre expose) (hr : r.dst.isTerminal)
    (hs : Accounts config s₀ s) (st : Storage) (t : Nat) :
    Accounts config s₀ (expose (pre.commit r st t)) := by
  have hsub : r.isSubmitted = false := by cases r <;> first | rfl | cases hr
  obtain ⟨job, hjob, hlive⟩ := h.job hsub
  obtain ⟨hpermits, hinFlight, hsems⟩ := h.permits_terminal st t hr
  have hself := h.get_ack_self st t hjob
  have hother : ∀ {id}, id ≠ r.jobId →
      (expose (pre.commit r st t)).store.get id = s.store.get id := fun hid => h.get_ack st t hid
  refine
    { semaphores := fun q => by rw [hsems, isSome_removePermit, hs.semaphores]
      conserved := fun q c hc => ?_
      permit := fun id p hp => ?_
      held := fun id job' hjob' hlive' hnone => ?_
      kept := fun id job₀ hjob₀ => ?_
      ended := fun r' hr' hterm => ?_
      ending := fun id job₀ job' hjob₀ hlive₀ hjob' hterm => ?_ }
  · have hold := hs.conserved q c hc
    have hmove := removePermit_conserves (s := s) r.jobId (q := q) (by rw [hs.semaphores, hc]; rfl)
    have havail : (expose (pre.commit r st t)).availableIn q =
        (s.removePermit r.jobId).availableIn q := by rw [availableIn, hsems, availableIn]
    have hcount : (expose (pre.commit r st t)).permitsIn q =
        (s.removePermit r.jobId).permitsIn q := by rw [permitsIn, hpermits]; rfl
    rw [havail, hcount, inFlightIn, hinFlight]
    rw [inFlightIn] at hold
    omega
  · rw [hpermits, HashMap.get_erase] at hp
    split at hp
    · cases hp
    · rename_i hid
      rw [hother hid]
      exact hs.permit id p hp
  · have hid : id ≠ r.jobId := by
      rintro rfl
      rw [hself] at hjob'
      cases hjob'
      rw [WalRecord.update_state, hr] at hlive'
      cases hlive'
    rw [hother hid] at hjob'
    rw [hpermits, HashMap.get_erase, if_neg hid]
    exact hs.held id job' hjob' hlive' hnone
  · obtain ⟨job', hjob', hq, hterm⟩ := hs.kept id job₀ hjob₀
    by_cases hid : id = r.jobId
    · rw [hid, hjob] at hjob'
      cases hjob'
      refine ⟨_, by rw [hid]; exact hself, ?_, fun _ => by rw [WalRecord.update_state]; exact hr⟩
      rw [(WalRecord.update_queue hsub job).1]
      exact hq
    · exact ⟨job', (hother hid).trans hjob', hq, hterm⟩
  · rw [h.acked_ack, List.mem_append, List.mem_singleton] at hr'
    by_cases hid : r'.jobId = r.jobId
    · exact ⟨_, by rw [hid]; exact hself, by rw [WalRecord.update_state]; exact hr⟩
    · rcases hr' with hr' | rfl
      · rw [hother hid]
        exact hs.ended r' hr' hterm
      · exact absurd rfl hid
  · by_cases hid : id = r.jobId
    · exact ⟨r, by rw [h.acked_ack]; simp, hid.symm, hr⟩
    · rw [hother hid] at hjob'
      obtain ⟨r', hr', hid', hterm'⟩ := hs.ending id job₀ job' hjob₀ hlive₀ hjob' hterm
      exact ⟨r', by rw [h.acked_ack]; exact List.mem_append_left _ hr', hid', hterm'⟩

end

theorem availableIn_of_map {q : String}
    (h : (s'.semaphores.get q).map (·.available) = (s.semaphores.get q).map (·.available)) :
    s'.availableIn q = s.availableIn q := by
  rw [availableIn, h, availableIn]

theorem isSome_of_map {q : String}
    (h : (s'.semaphores.get q).map (·.available) = (s.semaphores.get q).map (·.available)) :
    (s'.semaphores.get q).isSome = (s.semaphores.get q).isSome := by
  simpa using congrArg Option.isSome h

theorem availableIn_returnPermit {permit : OwnedSemaphorePermit} {q : String}
    (hq : (s.semaphores.get q).isSome) :
    (s.returnPermit permit).availableIn q =
      s.availableIn q + if permit.queue = q then 1 else 0 :=
  available_release permit s.semaphores hq

theorem acquire_units {queue : String} {sem : Semaphore}
    (hsem : s.semaphores.get queue = some sem) (havail : 0 < sem.available) (q : String) :
    (s.acquire queue).availableIn q + (s.acquire queue).inFlightIn q =
      s.availableIn q + s.inFlightIn q := by
  simp only [availableIn, inFlightIn, acquire, HashMap.get_modify, List.countP_cons]
  by_cases hq : q = queue
  · subst hq
    simp only [if_true, hsem, Option.map_some, Option.getD_some, decide_true]
    omega
  · simp [hq, Ne.symm hq]

/-- Every step keeps the accounts. -/
theorem Step.accounts (h : Step X P s s') (hs : Accounts config s₀ s) :
    Accounts config s₀ s' := by
  cases h with
  | quiet h =>
    refine hs.of_sameLives (.of_store h.store) h.permits (fun q => isSome_of_map (h.available q))
      (fun q _ => ?_) (fun r _ => by rw [acked, h.journal, acked])
    rw [availableIn_of_map (h.available q), inFlightIn, h.inFlight, inFlightIn]
  | @ack r _ _ _ _ storage h _ _ tick =>
    by_cases hsub : r.isSubmitted
    · exact h.submit_accounts hsub hs storage tick
    by_cases hterm : r.dst.isTerminal
    · exact h.terminal_accounts hterm hs storage tick
    rw [Bool.not_eq_true] at hsub hterm
    obtain ⟨hpermits, hinFlight, hsems⟩ := h.permits_other storage tick hsub hterm
    refine hs.of_sameLives (h.sameLives hsub hterm storage tick) hpermits
      (fun q => by rw [hsems]) (fun q _ => ?_) (fun r' hr' => ?_)
    · rw [availableIn, hsems, inFlightIn, hinFlight, availableIn, inFlightIn]
    · rw [h.acked_ack, List.mem_append, List.mem_singleton, or_iff_left]
      rintro rfl
      rw [hterm] at hr'
      cases hr'
  | @nack r _ _ _ e storage h _ _ tick =>
    obtain ⟨hpermits, hinFlight, hsems⟩ := h.permits_nack e storage tick
    refine hs.of_sameLives (.of_store (h.store_nack e storage tick)) hpermits
      (fun q => by rw [hsems]) (fun q _ => ?_) (fun r' _ => by rw [h.acked_nack])
    rw [availableIn, hsems, inFlightIn, hinFlight, availableIn, inFlightIn]
  | @requeue entry job hentry hjob hstate =>
    refine hs.of_sameLives (fun id => ?_) rfl (fun _ => rfl) (fun _ _ => rfl)
      (fun _ _ => Iff.rfl)
    change (HashMap.get (s.store.insert entry.jobId _) id).map _ = _
    rw [HashMap.get_insert]
    split
    · rename_i hid
      rw [hid, hjob]
      simp [hstate, JobState.isTerminal]
    · rfl
  | dropEntry =>
    exact hs.of_sameLives (.of_store rfl) rfl (fun _ => rfl) (fun _ _ => rfl) (fun _ _ => Iff.rfl)
  | acquire hsem havail =>
    exact hs.of_sameLives (.of_store rfl) rfl (fun q => HashMap.isSome_get_modify ..)
      (fun q _ => acquire_units hsem havail q) (fun _ _ => Iff.rfl)
  | @returnPermit permit hpermit =>
    refine hs.of_sameLives (.of_store rfl) rfl (fun q => isSome_release ..) (fun q hq => ?_)
      (fun _ _ => Iff.rfl)
    have herase := countP_erase_permit hpermit q
    rw [availableIn_returnPermit hq, inFlightIn, inFlightIn]
    change _ + (s.inFlight.erase permit).countP _ = _
    omega
  | forceShutdown =>
    have hacked := acked_forceShutdown s
    obtain ⟨_, _, _, _, heq, _⟩ := forceShutdown_frame s
    rw [heq] at hacked ⊢
    refine hs.of_sameLives (.of_store rfl) rfl (fun q => ?_) (fun q _ => ?_)
      (fun r _ => by rw [hacked])
    · simp only [HashMap.get_mapValues, Option.isSome_map]
    · simp only [availableIn, HashMap.get_mapValues, Option.map_map]
      rfl

theorem Steps.accounts (h : Steps X P s s') (hs : Accounts config s₀ s) :
    Accounts config s₀ s' := by
  induction h with
  | refl => exact hs
  | tail _ hstep ih => exact hstep.accounts ih

/-! ## Consequences -/

namespace Accounts

variable (h : Accounts config s₀ s) (q : String)

include h

theorem liveIn_eq : s.store.liveIn q = s.permitsIn q +
    ((s.store.keysWith (fun job => job.isLive && job.queue.asStr = q)).filter
      (fun id => (s₀.store.get id).isSome)).length := by
  rw [MemoryStore.liveIn, HashMap.count_eq_length, permitsIn, HashMap.count_eq_length]
  rw [List.length_eq_length_filter_add (fun id => (s₀.store.get id).isSome), Nat.add_comm]
  congr 1
  apply List.Perm.length_eq
  rw [List.perm_ext_iff_of_nodup ((HashMap.keysWith_nodup _ _).filter _)
    (HashMap.keysWith_nodup _ _)]
  intro id
  rw [List.mem_filter, HashMap.mem_keysWith, HashMap.mem_keysWith]
  simp only [Bool.and_eq_true, decide_eq_true_eq, JobRecord.isLive, Bool.not_eq_true',
    Option.isSome_eq_false_iff, Option.isNone_iff_eq_none]
  constructor
  · rintro ⟨⟨job, hjob, hlive, hq⟩, hnone⟩
    obtain ⟨p, hp⟩ := Option.isSome_iff_exists.mp (h.held id job hjob hlive hnone)
    obtain ⟨_, job', hjob', _, hq'⟩ := h.permit id p hp
    rw [hjob] at hjob'
    cases hjob'
    exact ⟨p, hp, hq'.symm.trans hq⟩
  · rintro ⟨p, hp, hq⟩
    obtain ⟨hnone, job, hjob, hlive, hq'⟩ := h.permit id p hp
    exact ⟨⟨job, hjob, hlive, hq'.trans hq⟩, hnone⟩

theorem old_subset : (s.store.keysWith (fun job => job.isLive && job.queue.asStr = q)).filter
    (fun id => (s₀.store.get id).isSome) ⊆
      s₀.store.keysWith (fun job => job.isLive && job.queue.asStr = q) := by
  intro id hid
  rw [List.mem_filter, HashMap.mem_keysWith] at hid
  obtain ⟨⟨job, hjob, hlive⟩, hsome⟩ := hid
  obtain ⟨job₀, hjob₀⟩ := Option.isSome_iff_exists.mp hsome
  obtain ⟨job', hjob', hq, hterm⟩ := h.kept id job₀ hjob₀
  rw [hjob] at hjob'
  cases hjob'
  rw [HashMap.mem_keysWith]
  refine ⟨job₀, hjob₀, ?_⟩
  rw [hq] at hlive
  simp only [Bool.and_eq_true, JobRecord.isLive, Bool.not_eq_true'] at hlive ⊢
  refine ⟨?_, hlive.2⟩
  cases ht : job₀.state.isTerminal with
  | false => rfl
  | true =>
    rw [hterm ht] at hlive
    cases hlive.1

theorem old_subperm :
    ((s.store.keysWith (fun job => job.isLive && job.queue.asStr = q)).filter
      (fun id => (s₀.store.get id).isSome)).Subperm
        (s₀.store.keysWith (fun job => job.isLive && job.queue.asStr = q)) :=
  List.subperm_of_subset ((HashMap.keysWith_nodup _ _).filter _) (h.old_subset q)

theorem le_capacity {c : Nat} (hc : config.capacity q = some c) :
    s.store.liveIn q + s.availableIn q + s.inFlightIn q ≤ c := by
  have hconserved := h.conserved q c hc
  have hlive := h.liveIn_eq q
  have hold := (h.old_subperm q).length_le
  rw [← HashMap.count_eq_length] at hold
  rw [MemoryStore.liveIn] at hconserved
  omega

end Accounts

/-- The record ends a job of `q` that was live when the process started. -/
def EndsOld (s₀ : Coordinator) (q : String) (r : WalRecord) : Prop :=
  r.dst.isTerminal ∧ ∃ job, s₀.store.get r.jobId = some job ∧ job.isLive ∧ job.queue.asStr = q

theorem Accounts.still_live_iff (h : Accounts config s₀ s) (q : String) :
    (∀ r ∈ s.acked, ¬ EndsOld s₀ q r) ↔
      s₀.store.keysWith (fun job => job.isLive && job.queue.asStr = q) ⊆
        (s.store.keysWith (fun job => job.isLive && job.queue.asStr = q)).filter
          (fun id => (s₀.store.get id).isSome) := by
  constructor
  · intro hnone id hid
    obtain ⟨job₀, hjob₀, hlive₀⟩ := HashMap.mem_keysWith.mp hid
    simp only [Bool.and_eq_true, decide_eq_true_eq] at hlive₀
    obtain ⟨job, hjob, hq, _⟩ := h.kept id job₀ hjob₀
    rw [List.mem_filter, HashMap.mem_keysWith]
    refine ⟨⟨job, hjob, ?_⟩, by rw [hjob₀]; rfl⟩
    cases hterm : job.state.isTerminal with
    | false => simp [JobRecord.isLive, hterm, hq, hlive₀.2]
    | true =>
      have hlive₀' : job₀.state.isTerminal = false := by simpa [JobRecord.isLive] using hlive₀.1
      obtain ⟨r, hr, rfl, hrterm⟩ := h.ending id job₀ job hjob₀ hlive₀' hjob hterm
      exact absurd ⟨hrterm, job₀, hjob₀, hlive₀.1, hlive₀.2⟩ (hnone r hr)
  · rintro hsub r hr ⟨hterm, job₀, hjob₀, hlive₀, hq⟩
    have hid := hsub (HashMap.mem_keysWith.mpr ⟨job₀, hjob₀, by simp [hlive₀, hq]⟩)
    obtain ⟨job, hjob, hlive⟩ := HashMap.mem_keysWith.mp (List.mem_filter.mp hid).1
    obtain ⟨job', hjob', hterm'⟩ := h.ended r hr hterm
    rw [hjob] at hjob'
    cases hjob'
    simp [JobRecord.isLive, hterm'] at hlive

/-- All the capacity of a queue is accounted for exactly as long as no job that was live at
the start has ended. -/
theorem Accounts.capacity_le_iff (h : Accounts config s₀ s) {q : String} {c : Nat}
    (hc : config.capacity q = some c) :
    c ≤ s.availableIn q + s.inFlightIn q + s.store.liveIn q ↔
      ∀ r ∈ s.acked, ¬ EndsOld s₀ q r := by
  have hconserved := h.conserved q c hc
  have hlive := h.liveIn_eq q
  have hperm := h.old_subperm q
  rw [h.still_live_iff q]
  rw [MemoryStore.liveIn, HashMap.count_eq_length] at hconserved
  constructor
  · intro hle
    exact (hperm.perm_of_length_le (by omega)).symm.subset
  · intro hsub
    have := (List.subperm_of_subset (HashMap.keysWith_nodup _ _) hsub).length_le
    omega

end Coordinator

end DurableQueue
