import DurableQueue.Defs.RecoverLog
import DurableQueue.Defs.RuntimeLaws
import DurableQueue.Defs.System
import DurableQueue.Defs.Coordinator.Permits

/-! A start reserves the capacity that the recovered jobs occupy. -/

namespace DurableQueue

variable {X : Crates} {config : RuntimeConfig} {env : BootEnv} {rec : RecoveredState}

theorem get_newSemaphores (config : RuntimeConfig) (q : String) :
    (newSemaphores config).get q = (config.capacity q).map Semaphore.new :=
  HashMap.get_ofList_map (fun qc : QueueConfig => qc.name.asStr) (·.capacity) Semaphore.new
    config.queues q

/-! ## Reserving -/

theorem reserve_of_le {queue : String} {count n : Nat} {sem : Semaphore}
    (hopen : sem.closed = false) (h : n ≤ sem.available) :
    reserve queue count n sem = .ok { sem with available := sem.available - n } := by
  induction n generalizing sem with
  | zero => rfl
  | succ n ih =>
    have havail : ¬ (sem.available = 0 ∨ sem.closed = true) := by
      rw [hopen]
      simp only [Bool.false_eq_true, or_false]
      omega
    rw [reserve, if_neg havail]
    refine (@ih ⟨sem.available - 1, sem.closed⟩ hopen (Nat.le_sub_of_add_le h)).trans ?_
    simp only [Nat.sub_sub, Nat.add_comm 1 n]

theorem reserve_ok {queue : String} {count n : Nat} {sem sem' : Semaphore}
    (h : reserve queue count n sem = .ok sem') : sem'.available + n = sem.available := by
  induction n generalizing sem with
  | zero =>
    cases h
    rfl
  | succ n ih =>
    rw [reserve] at h
    split at h
    · cases h
    · rename_i hne
      have := ih h
      simp only [not_or] at hne this
      omega

def availableOf (semaphores : HashMap String Semaphore) (q : String) : Nat :=
  ((semaphores.get q).map (·.available)).getD 0

theorem reserveAll_isSome {l : List (String × Nat)} {sems sems' : HashMap String Semaphore}
    (h : reserveAll l sems = .ok sems') (q : String) :
    (sems'.get q).isSome = (sems.get q).isSome := by
  induction l generalizing sems with
  | nil =>
    cases h
    rfl
  | cons p l ih =>
    rw [reserveAll] at h
    split at h
    · exact ih h
    · rename_i sem hsem
      split at h
      · cases h
      · rw [ih h, HashMap.get_insert]
        split
        · rename_i hq
          rw [hq, hsem]
          rfl
        · rfl

theorem reserveAll_notMem {l : List (String × Nat)} {sems sems' : HashMap String Semaphore}
    (h : reserveAll l sems = .ok sems') {q : String} (hq : q ∉ l.map Prod.fst) :
    sems'.get q = sems.get q := by
  induction l generalizing sems with
  | nil =>
    cases h
    rfl
  | cons p l ih =>
    rw [List.map_cons, List.mem_cons, not_or] at hq
    rw [reserveAll] at h
    split at h
    · exact ih h hq.2
    · split at h
      · cases h
      · rw [ih h hq.2, HashMap.get_insert, if_neg hq.1]

theorem reserveAll_mem {l : List (String × Nat)} (hl : (l.map Prod.fst).Nodup)
    {sems sems' : HashMap String Semaphore} (h : reserveAll l sems = .ok sems') {q : String}
    {n : Nat} (hq : (q, n) ∈ l) (hsome : (sems.get q).isSome) :
    availableOf sems' q + n = availableOf sems q := by
  induction l generalizing sems with
  | nil => cases hq
  | cons p l ih =>
    rw [List.map_cons, List.nodup_cons] at hl
    rw [reserveAll] at h
    rcases List.mem_cons.mp hq with rfl | hq
    · obtain ⟨sem, hsem⟩ := Option.isSome_iff_exists.mp hsome
      rw [hsem] at h
      simp only at h
      split at h
      · cases h
      · rename_i hres
        rw [availableOf, reserveAll_notMem h hl.1, HashMap.get_insert_self, availableOf, hsem]
        exact reserve_ok hres
    · have hne : q ≠ p.1 := fun heq => hl.1 (heq ▸ List.mem_map.mpr ⟨_, hq, rfl⟩)
      split at h
      · exact ih hl.2 h hq hsome
      · split at h
        · cases h
        · have hother := ih hl.2 h hq (by rw [HashMap.get_insert, if_neg hne]; exact hsome)
          rw [hother, availableOf, HashMap.get_insert, if_neg hne, availableOf]

theorem reserveAll_of_le {l : List (String × Nat)} (hl : (l.map Prod.fst).Nodup)
    {sems : HashMap String Semaphore}
    (h : ∀ p ∈ l, ∀ sem, sems.get p.1 = some sem → sem.closed = false ∧ p.2 ≤ sem.available) :
    ∃ sems', reserveAll l sems = .ok sems' := by
  induction l generalizing sems with
  | nil => exact ⟨sems, rfl⟩
  | cons p l ih =>
    rw [List.map_cons, List.nodup_cons] at hl
    rw [reserveAll]
    cases hsem : sems.get p.1 with
    | none => exact ih hl.2 (fun p' hp' => h p' (by simp [hp']))
    | some sem =>
      obtain ⟨hopen, hle⟩ := h p (by simp) sem hsem
      simp only [reserve_of_le hopen hle]
      refine ih hl.2 ?_
      intro p' hp' sem' hsem'
      have hne : p'.1 ≠ p.1 := fun heq => hl.1 (heq ▸ List.mem_map.mpr ⟨_, hp', rfl⟩)
      rw [HashMap.get_insert, if_neg hne] at hsem'
      exact h p' (by simp [hp']) sem' hsem'

/-! ## What the recovered jobs need -/

theorem permitsNeeded_eq (env : BootEnv)
    (h : ListsJobs rec.store rec.queuedJobs rec.retryJobs) :
    permitsNeeded env rec =
      (liveBatches (env.order 2) rec.store rec.queuedJobs rec.retryJobs).foldl
        (fun m p => m.upsert p.1 0 (· + p.2)) .empty := by
  have hall := fun p => h.get_retry (p := p)
  rw [permitsNeeded, liveBatches, List.foldl_append, List.foldl_map]
  generalize HashMap.empty = m
  generalize List.foldl _ m _ = m'
  generalize rec.retryJobs = l at hall
  induction l generalizing m' with
  | nil => rfl
  | cons p l ih =>
    obtain ⟨job, hjob, hstate⟩ := hall p (by simp)
    simp only [List.foldl_cons, List.filterMap_cons, hjob, hstate, if_true, Option.map_some]
    exact ih _ (fun p' hp' => hall p' (by simp [hp']))

theorem getD_permitsNeeded (env : BootEnv)
    (h : ListsJobs rec.store rec.queuedJobs rec.retryJobs) (q : String) :
    ((permitsNeeded env rec).get q).getD 0 = rec.store.liveIn q := by
  rw [permitsNeeded_eq env h, HashMap.getD_foldl_upsert, ← h.batchTotal_eq (env.order 2) q]
  simp [batchTotal]

theorem permitsNeeded_nodup (env : BootEnv) (rec : RecoveredState) :
    (((env.order 3).arrange (permitsNeeded env rec).toList).map Prod.fst).Nodup :=
  (IterOrder.nodup_map_arrange _).mpr (HashMap.nodup_keys_toList _)

theorem reservePermitsForRecovered_ok (env : BootEnv)
    (h : ListsJobs rec.store rec.queuedJobs rec.retryJobs) (hfits : Fits config rec.store) :
    ∃ sems, reservePermitsForRecovered env (newSemaphores config) rec = .ok sems := by
  refine reserveAll_of_le (permitsNeeded_nodup env rec) ?_
  rintro ⟨q, n⟩ hp sem hsem
  rw [IterOrder.mem_arrange, HashMap.mem_toList] at hp
  rw [get_newSemaphores] at hsem
  obtain ⟨c, hc, rfl⟩ := Option.map_eq_some_iff.mp hsem
  refine ⟨rfl, ?_⟩
  have hn := getD_permitsNeeded env h q
  rw [hp, Option.getD_some] at hn
  exact hn.le.trans (hfits.capacity q c hc)

theorem available_reserved {sems : HashMap String Semaphore}
    (h : ListsJobs rec.store rec.queuedJobs rec.retryJobs)
    (hok : reservePermitsForRecovered env (newSemaphores config) rec = .ok sems) {q : String}
    {c : Nat} (hc : config.capacity q = some c) :
    availableOf sems q + rec.store.liveIn q = c := by
  have hnew : availableOf (newSemaphores config) q = c := by
    rw [availableOf, get_newSemaphores, hc]
    rfl
  have hsome : ((newSemaphores config).get q).isSome := by
    rw [get_newSemaphores, hc]
    rfl
  have hneeded := getD_permitsNeeded env h q
  cases hget : (permitsNeeded env rec).get q with
  | none =>
    have hnot : q ∉ ((env.order 3).arrange (permitsNeeded env rec).toList).map Prod.fst := by
      intro hmem
      obtain ⟨⟨q', n⟩, hp, rfl⟩ := List.mem_map.mp hmem
      rw [IterOrder.mem_arrange, HashMap.mem_toList, hget] at hp
      cases hp
    rw [hget, Option.getD_none] at hneeded
    rw [availableOf, reserveAll_notMem hok hnot, ← hneeded]
    exact hnew
  | some n =>
    rw [hget, Option.getD_some] at hneeded
    rw [← hneeded, ← hnew]
    refine reserveAll_mem (permitsNeeded_nodup env rec) hok ?_ hsome
    rw [IterOrder.mem_arrange, HashMap.mem_toList]
    exact hget

/-! ## The accounts at the start -/

namespace Coordinator

theorem accounts_fresh (env : BootEnv) (config : RuntimeConfig) (storage : Storage) :
    let s₀ := newWithRecovery env config storage (newSemaphores config) none
    Accounts config s₀ s₀ := by
  refine ⟨fun q => ?_, fun q c hc => ?_, ?_, ?_, ?_, ?_, ?_⟩
  · change ((newSemaphores config).get q).isSome = _
    rw [get_newSemaphores, Option.isSome_map]
  · change availableOf (newSemaphores config) q + 0 + 0 + 0 = c
    rw [availableOf, get_newSemaphores, hc]
    rfl
  · exact fun id p hp => by cases hp
  · exact fun id job hjob => by cases hjob
  · exact fun id job₀ hjob₀ => by cases hjob₀
  · exact fun r hr => by cases hr
  · exact fun id job₀ job hjob₀ => by cases hjob₀

theorem accounts_recovered {sems : HashMap String Semaphore} {storage : Storage}
    (h : ListsJobs rec.store rec.queuedJobs rec.retryJobs)
    (hok : reservePermitsForRecovered env (newSemaphores config) rec = .ok sems) :
    let s₀ := newWithRecovery env config storage sems (some rec)
    Accounts config s₀ s₀ := by
  refine ⟨fun q => ?_, fun q c hc => ?_, ?_, ?_, ?_, ?_, ?_⟩
  · change (sems.get q).isSome = _
    rw [reserveAll_isSome hok, get_newSemaphores, Option.isSome_map]
  · change availableOf sems q + 0 + 0 + rec.store.liveIn q = c
    simpa using available_reserved h hok hc
  · exact fun id p hp => by cases hp
  · intro id job hjob _ hnone
    rw [hjob] at hnone
    cases hnone
  · exact fun id job₀ hjob₀ => ⟨job₀, hjob₀, rfl, fun h => h⟩
  · exact fun r hr => by cases hr
  · intro id job₀ job hjob₀ hlive hjob hterm
    rw [hjob₀] at hjob
    cases hjob
    rw [hlive] at hterm
    cases hterm

end Coordinator

theorem startWal_ok {walFile file : Option (List UInt8)} {s₀ : Coordinator}
    (h : startWal X env config walFile = (.ok s₀, file)) :
    ∃ rec f sems, config.validate = .ok () ∧
      recover X env.recovery config walFile = (.ok rec, f) ∧ file = some f ∧
      reservePermitsForRecovered env (newSemaphores config) rec = .ok sems ∧
      s₀ = .newWithRecovery env config (.wal ⟨f, rec.nextSequence⟩) sems (some rec) := by
  unfold startWal at h
  split at h
  · cases h
  · rename_i hvalid
    split at h
    · cases h
    · rename_i rec f hrec
      split at h
      · cases h
      · rename_i sems hsems
        obtain ⟨hs, hf⟩ := Prod.mk.inj h
        cases hs
        exact ⟨rec, f, sems, hvalid, hrec, hf.symm, hsems, rfl⟩

def startedOr (s : Coordinator) : Except Error Coordinator → Coordinator
  | .ok s₀ => s₀
  | .error _ => s

theorem startWal_of_isOk {walFile : Option (List UInt8)} (s : Coordinator)
    (h : (startWal X env config walFile).1.isOk = true) : ∃ file,
    startWal X env config walFile = (.ok (startedOr s (startWal X env config walFile).1), file) := by
  revert h
  generalize startWal X env config walFile = start
  obtain ⟨_ | s₀, file⟩ := start
  · exact fun h => nomatch h
  · exact fun _ => ⟨file, rfl⟩

namespace Coordinator

inductive Boots (X : Crates) (config : RuntimeConfig) (s₀ : Coordinator) : Prop
  | memory (env : BootEnv) (h : startMemory env config = .ok s₀) : Boots X config s₀
  | wal (env : BootEnv) (walFile : Option (List UInt8)) {file : Option (List UInt8)}
      (h : startWal X env config walFile = (.ok s₀, file))
      (hids : (submittedIds (logOf X walFile)).Nodup) : Boots X config s₀

theorem startMemory_ok {s₀ : Coordinator} (h : startMemory env config = .ok s₀) :
    config.validate = .ok () ∧
      s₀ = newWithRecovery env config .memory (newSemaphores config) none := by
  unfold startMemory at h
  split at h
  · cases h
  · rename_i hvalid
    cases h
    exact ⟨hvalid, rfl⟩

theorem Boots.started {s₀ : Coordinator} (h : Boots X config s₀) : Started X config s₀ := by
  cases h with
  | memory env h =>
    obtain ⟨_, rfl⟩ := startMemory_ok h
    exact .fresh env _ _
  | wal env walFile h hids =>
    obtain ⟨rec, f, sems, _, hrec, _, _, rfl⟩ := startWal_ok h
    exact .recovered env _ _ hrec hids

theorem Boots.accounts {s₀ : Coordinator} (h : Boots X config s₀) : Accounts config s₀ s₀ := by
  cases h with
  | memory env h =>
    obtain ⟨_, rfl⟩ := startMemory_ok h
    exact accounts_fresh env config .memory
  | wal env walFile h hids =>
    obtain ⟨rec, f, sems, _, hrec, _, hsems, rfl⟩ := startWal_ok h
    exact accounts_recovered (recover_recovers hids hrec).lists hsems

def mailRestarted : Coordinator :=
  match (startWal Postcard.crates mailBoot mailConfig (some mailSubmitted.logFile)).1 with
  | .ok s => s
  | .error _ => mailStart

theorem startWal_mailRestarted : ∃ file,
    startWal Postcard.crates mailBoot mailConfig (some mailSubmitted.logFile) =
      (.ok mailRestarted, file) := by
  have hsame : mailRestarted = startedOr mailStart (startWal Postcard.crates mailBoot mailConfig
      (some mailSubmitted.logFile)).1 := by
    unfold mailRestarted
    generalize startWal Postcard.crates mailBoot mailConfig (some mailSubmitted.logFile) = start
    obtain ⟨_ | s, file⟩ := start <;> rfl
  rw [hsame]
  exact startWal_of_isOk mailStart (by decide +kernel)

theorem mailRestarted_boots : Boots Postcard.crates mailConfig mailRestarted := by
  obtain ⟨file, h⟩ := startWal_mailRestarted
  exact .wal mailBoot _ h (by decide +kernel)

def mailForgotten : Coordinator :=
  after Postcard.crates mailConfig (mailEnv ⟨2⟩ .none) (.handle (.cancel ⟨1⟩ 0)) mailRestarted

theorem mailForgotten_run (P : Fault → Prop) (hP : P .none) :
    Run Postcard.crates P mailConfig mailRestarted mailForgotten := by
  have henabled : (Op.handle (.cancel ⟨1⟩ 0)).Enabled P (mailEnv ⟨2⟩ .none) mailRestarted :=
    ⟨by decide +kernel, trivial, fun _ => hP,
      fun _ => show mailRestarted.store.get ⟨2⟩ = none by decide +kernel⟩
  exact .single (.exec henabled (exec_eq_after (by decide +kernel)))

end Coordinator

end DurableQueue
