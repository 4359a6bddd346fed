import DurableQueue.Defs.Continuity

/-! Recoveries that are cut off and begun again. -/

namespace DurableQueue

variable {X : Crates} {config : RuntimeConfig} {env env' : RecoverEnv}
  {log recs recs' : List WalRecord} {file file' torn : List UInt8}

/-! ## Reconciling some of the jobs -/

theorem JobRecord.reconciled_of_ne {job : JobRecord} (h : job.state ≠ .running) :
    job.reconciled = job := if_neg h

@[simp] theorem JobRecord.reconciled_reconciled (job : JobRecord) :
    job.reconciled.reconciled = job.reconciled := reconciled_of_ne job.reconciled_state

theorem JobRecord.reconciled_attempts (job : JobRecord) :
    job.reconciled.attempts = job.attempts := by
  unfold reconciled
  split <;> rfl

structure Partly (log recs : List WalRecord) : Prop where
  nodup : (recs.map WalRecord.jobId).Nodup
  each : ∀ r ∈ recs, Reconciles log r

theorem partly_nil (log : List WalRecord) : Partly log [] := ⟨List.nodup_nil, by simp⟩

theorem partly_take (env : RecoverEnv) (h : (submittedIds log).Nodup) (n : Nat) :
    Partly log ((reconciliationOf env log).take n) := by
  refine ⟨?_, fun r hr => reconciliationOf_reconciles env h r (List.mem_of_mem_take hr)⟩
  rw [List.map_take]
  exact (reconciliationOf_nodup env log).sublist (List.take_sublist _ _)

theorem partly_reconciliationOf (env : RecoverEnv) (h : (submittedIds log).Nodup) :
    Partly log (reconciliationOf env log) :=
  ⟨reconciliationOf_nodup env log, reconciliationOf_reconciles env h⟩

namespace Reconciles

variable {r : WalRecord}

theorem effect (h : Reconciles log r) :
    r.effect ((replayed log).get r.jobId) =
      ((replayed log).get r.jobId).map JobRecord.reconciled := by
  obtain ⟨now, l, job, heq, hget, hstate, _⟩ := h
  have hupdate := update_reconciliation now l r.jobId hstate
  rw [← heq] at hupdate
  rw [hget, WalRecord.effect_some, hupdate, Option.map_some]

end Reconciles

namespace Partly

theorem submittedIds_eq (h : Partly log recs) : submittedIds (log ++ recs) = submittedIds log := by
  rw [submittedIds_append, submittedIds_of_none fun r hr => isSubmitted_reconciles (h.each r hr),
    List.append_nil]

theorem maxEpoch_eq (h : Partly log recs) : maxEpoch (log ++ recs) = maxEpoch log :=
  maxEpoch_append_of_none (fun r hr => leasedEpoch_reconciles (h.each r hr)) log

theorem get_of_mem (h : Partly log recs) {id : JobId} (hid : id ∈ recs.map WalRecord.jobId) :
    (replayed (log ++ recs)).get id = ((replayed log).get id).map JobRecord.reconciled := by
  obtain ⟨r, hr, rfl⟩ := List.mem_map.mp hid
  rw [replayed, MemoryStore.replay_append, MemoryStore.get_replay_of_mem h.nodup hr]
  exact (h.each r hr).effect

theorem get_of_notMem {id : JobId} (hid : id ∉ recs.map WalRecord.jobId) :
    (replayed (log ++ recs)).get id = (replayed log).get id := by
  rw [replayed, MemoryStore.replay_append]
  apply MemoryStore.get_replay_of_ne
  rintro r hr rfl
  exact hid (List.mem_map.mpr ⟨r, hr, rfl⟩)

theorem map_reconciled (h : Partly log recs) (id : JobId) :
    ((replayed (log ++ recs)).get id).map JobRecord.reconciled =
      ((replayed log).get id).map JobRecord.reconciled := by
  by_cases hid : id ∈ recs.map WalRecord.jobId
  · rw [h.get_of_mem hid, Option.map_map]
    congr 1
    funext job
    exact job.reconciled_reconciled
  · rw [get_of_notMem hid]

theorem running (h : Partly log recs) {id : JobId} {job : JobRecord}
    (hget : (replayed (log ++ recs)).get id = some job) (hstate : job.state = .running) :
    id ∉ recs.map WalRecord.jobId ∧ (replayed log).get id = some job := by
  by_cases hid : id ∈ recs.map WalRecord.jobId
  · rw [h.get_of_mem hid, Option.map_eq_some_iff] at hget
    obtain ⟨job', _, rfl⟩ := hget
    exact absurd hstate job'.reconciled_state
  · rw [get_of_notMem hid] at hget
    exact ⟨hid, hget⟩

theorem append (h : Partly log recs) (h' : Partly (log ++ recs) recs') :
    Partly log (recs ++ recs') := by
  have hnew : ∀ r ∈ recs', r.jobId ∉ recs.map WalRecord.jobId ∧ Reconciles log r := by
    intro r hr
    obtain ⟨now, l, job, heq, hget, hstate, hlease⟩ := h'.each r hr
    obtain ⟨hid, hold⟩ := h.running hget hstate
    rw [lastLease_append_of_none fun r' hr' => leaseFor_reconciles (h.each r' hr') _] at hlease
    exact ⟨hid, now, l, job, heq, hold, hstate, hlease⟩
  constructor
  · rw [List.map_append]
    refine h.nodup.append h'.nodup fun id hid hid' => ?_
    obtain ⟨r, hr, rfl⟩ := List.mem_map.mp hid'
    exact (hnew r hr).1 hid
  · intro r hr
    rcases List.mem_append.mp hr with hr | hr
    · exact h.each r hr
    · exact (hnew r hr).2

end Partly

/-! ## Reconciling all of them -/

def Settled (log : List WalRecord) : Prop :=
  ∀ id job, (replayed log).get id = some job → job.state ≠ .running

theorem settled_reconciled (env : RecoverEnv) (log : List WalRecord) :
    Settled (log ++ reconciliationOf env log) := by
  intro id job hget
  rw [replayed, get_replay_reconciled, Option.map_eq_some_iff] at hget
  obtain ⟨job', _, rfl⟩ := hget
  exact job'.reconciled_state

theorem Settled.reconciliationOf (h : Settled log) (env : RecoverEnv) :
    reconciliationOf env log = [] := by
  rw [List.eq_nil_iff_forall_not_mem]
  intro r hr
  obtain ⟨job, hget, hstate⟩ := mem_reconciliationOf.mp (List.mem_map_of_mem hr)
  exact h r.jobId job hget hstate

def WalRecord.fate (r : WalRecord) : JobId × Bool := (r.jobId, r.isDead)

theorem isDead_reconciliation (now : UnixMillis) (l : LeaseId) (job : JobRecord) (id : JobId) :
    (reconciliation now l job id).isDead = decide (¬ job.attempts < job.spec.maxAttempts) := by
  unfold reconciliation
  split <;> simp_all [WalRecord.isDead]

theorem Reconciles.fate {r : WalRecord} (h : Reconciles log r) {job : JobRecord}
    (hget : (replayed log).get r.jobId = some job) :
    r.fate = (r.jobId, decide (¬ job.attempts < job.spec.maxAttempts)) := by
  obtain ⟨now, l, job', heq, hget', _⟩ := h
  have hdead := isDead_reconciliation now l job' r.jobId
  rw [← heq] at hdead
  rw [hget] at hget'
  cases hget'
  rw [WalRecord.fate, hdead]

theorem Reconciles.counted {r : WalRecord} (h : Reconciles log r) :
    r.isCompleted = false ∧ r.isCancelled = false ∧ r.isRetryScheduled = !r.isDead := by
  obtain ⟨now, l, job, heq, _⟩ := h
  rcases reconciliation_cases now l job r.jobId with h | h <;> rw [heq, h] <;> exact ⟨rfl, rfl, rfl⟩

namespace Partly

theorem nodup_fates (h : Partly log recs) : (recs.map WalRecord.fate).Nodup := by
  apply List.Nodup.of_map Prod.fst
  rw [List.map_map]
  exact h.nodup

theorem mem_fates (h : Partly log recs) (hall : Settled (log ++ recs)) {id : JobId} {dead : Bool} :
    (id, dead) ∈ recs.map WalRecord.fate ↔ ∃ job, (replayed log).get id = some job ∧
      job.state = .running ∧ dead = decide (¬ job.attempts < job.spec.maxAttempts) := by
  constructor
  · intro hmem
    obtain ⟨r, hr, heq⟩ := List.mem_map.mp hmem
    obtain ⟨now, l, job, _, hget, hstate, _⟩ := h.each r hr
    rw [(h.each r hr).fate hget] at heq
    cases heq
    exact ⟨job, hget, hstate, rfl⟩
  · rintro ⟨job, hget, hstate, rfl⟩
    by_cases hid : id ∈ recs.map WalRecord.jobId
    · obtain ⟨r, hr, rfl⟩ := List.mem_map.mp hid
      exact List.mem_map.mpr ⟨r, hr, (h.each r hr).fate hget⟩
    · rw [← get_of_notMem hid] at hget
      exact absurd hstate (hall id job hget)

theorem perm (h : Partly log recs) (hall : Settled (log ++ recs)) (h' : Partly log recs')
    (hall' : Settled (log ++ recs')) :
    (recs.map WalRecord.fate).Perm (recs'.map WalRecord.fate) := by
  rw [List.perm_ext_iff_of_nodup h.nodup_fates h'.nodup_fates]
  rintro ⟨id, dead⟩
  rw [h.mem_fates hall, h'.mem_fates hall']

theorem countP_eq (h : Partly log recs) (hall : Settled (log ++ recs)) (h' : Partly log recs')
    (hall' : Settled (log ++ recs')) {p : WalRecord → Bool} (f : JobId × Bool → Bool)
    (hp : ∀ r, Reconciles log r → p r = f r.fate) :
    (log ++ recs).countP p = (log ++ recs').countP p := by
  have hfate : ∀ {rs : List WalRecord}, Partly log rs →
      rs.countP p = (rs.map WalRecord.fate).countP f := by
    intro rs hrs
    rw [List.countP_map]
    exact List.countP_congr fun r hr => by rw [hp r (hrs.each r hr)]; rfl
  rw [List.countP_append, List.countP_append, hfate h, hfate h',
    (h.perm hall h' hall').countP_eq]

theorem length_eq (h : Partly log recs) (hall : Settled (log ++ recs)) (h' : Partly log recs')
    (hall' : Settled (log ++ recs')) : (log ++ recs).length = (log ++ recs').length := by
  simpa using (h.perm hall h' hall').length_eq

end Partly

/-! ## The state that is recovered -/

/-- Two recoveries lead to the same jobs, lists and numbers; the times of the retries and
the order of the retry list are left open. -/
structure RecoveredState.Agrees (rec rec' : RecoveredState) : Prop where
  store : ∀ id, rec.store.get id = rec'.store.get id
  queuedJobs : ∀ q, rec.queuedJobs.get q = rec'.queuedJobs.get q
  retryJobs : ∀ id, id ∈ rec.retryJobs.map Prod.fst ↔ id ∈ rec'.retryJobs.map Prod.fst
  nextSequence : rec.nextSequence = rec'.nextSequence
  nextLeaseEpoch : rec.nextLeaseEpoch = rec'.nextLeaseEpoch
  submitted : rec.submitted = rec'.submitted
  completed : rec.completed = rec'.completed
  dead : rec.dead = rec'.dead
  cancelled : rec.cancelled = rec'.cancelled
  retried : rec.retried = rec'.retried

theorem MemoryStore.place_congr {store store' : MemoryStore}
    (h : ∀ id, store.get id = store'.get id) (id : JobId) : store.place id = store'.place id := by
  rw [place, place, h]

theorem Fits.congr {store store' : MemoryStore} (hfits : Fits config store')
    (h : ∀ id, store.get id = store'.get id) : Fits config store where
  configured id st q hplace := by
    rw [MemoryStore.place_congr h] at hplace
    exact hfits.configured id st q hplace
  capacity q c hc := by
    have hlive : store.liveIn q = store'.liveIn q := HashMap.count_congr fun id => by rw [h]
    rw [hlive]
    exact hfits.capacity q c hc

theorem ListsJobs.get_eq {store store' : MemoryStore} {queued queued' : HashMap String (List JobId)}
    {retry retry' : List (JobId × UnixMillis)} (h : ListsJobs store queued retry)
    (h' : ListsJobs store' queued' retry') {q : String}
    (heq : (queued.get q).getD [] = (queued'.get q).getD []) : queued.get q = queued'.get q := by
  cases hget : queued.get q with
  | none =>
    cases hget' : queued'.get q with
    | none => rfl
    | some ids' =>
      rw [hget, hget'] at heq
      exact absurd heq.symm (h'.queued_nonempty q ids' hget')
  | some ids =>
    rw [hget] at heq
    cases hget' : queued'.get q with
    | none =>
      rw [hget'] at heq
      exact absurd heq (h.queued_nonempty q ids hget)
    | some ids' =>
      rw [hget'] at heq
      exact congrArg some heq

namespace Recovers

variable {rec rec' : RecoveredState}

theorem get_store (h : Recovers env config log rec) (id : JobId) :
    rec.store.get id = ((replayed log).get id).map JobRecord.reconciled := by
  rw [h.store, get_replay_reconciled]

theorem attempts (h : Recovers env config log rec) (id : JobId) :
    (rec.store.get id).map (·.attempts) = ((replayed log).get id).map (·.attempts) := by
  rw [h.get_store, Option.map_map]
  congr 1
  funext job
  exact job.reconciled_attempts

/-- A recovery that finds some of the jobs reconciled ends where one that finds none does. -/
theorem agrees (h : Recovers env config log rec) (hnodup : (submittedIds log).Nodup)
    (hpartly : Partly log recs) (h' : Recovers env' config (log ++ recs) rec')
    (hseq : rec'.nextSequence = UInt64.ofNat
      ((log ++ recs ++ reconciliationOf env' (log ++ recs)).length + 1))
    (hseq' : rec.nextSequence = UInt64.ofNat ((log ++ reconciliationOf env log).length + 1)) :
    rec'.Agrees rec := by
  have hnodup' : (submittedIds (log ++ recs)).Nodup := hpartly.submittedIds_eq.symm ▸ hnodup
  have hall := hpartly.append (partly_reconciliationOf env' hnodup')
  have hsettled := settled_reconciled env' (log ++ recs)
  have hpartly' := partly_reconciliationOf env hnodup
  have hsettled' := settled_reconciled env log
  have hstore : ∀ id, rec'.store.get id = rec.store.get id := by
    intro id
    rw [h.get_store, h'.get_store, hpartly.map_reconciled]
  have hplace := MemoryStore.place_congr hstore
  obtain ⟨hsubmitted, hcompleted, hdead, hcancelled, hretried⟩ := h.counted
  obtain ⟨hsubmitted', hcompleted', hdead', hcancelled', hretried'⟩ := h'.counted
  rw [List.append_assoc] at hsettled hsubmitted' hcompleted' hdead' hcancelled' hretried' hseq
  refine
    { store := hstore
      queuedJobs := fun q => h'.lists.get_eq h.lists ?_
      retryJobs := fun id => by simp only [h.lists.retry, h'.lists.retry, hplace]
      nextSequence := ?_
      nextLeaseEpoch := ?_
      submitted := ?_
      completed := ?_
      dead := ?_
      cancelled := ?_
      retried := ?_ }
  · simp only [h.order, h'.order, hpartly.submittedIds_eq, hplace]
  · rw [hseq, hseq', hall.length_eq hsettled hpartly' hsettled']
  · apply UInt64.toNat_inj.mp
    rw [h.nextLeaseEpoch, h'.nextLeaseEpoch, hpartly.maxEpoch_eq]
  · rw [hsubmitted, hsubmitted']
    exact hall.countP_eq hsettled hpartly' hsettled' (fun _ => false) fun _ =>
      isSubmitted_reconciles
  · rw [hcompleted, hcompleted']
    exact hall.countP_eq hsettled hpartly' hsettled' (fun _ => false) fun r hr => hr.counted.1
  · rw [hdead, hdead']
    exact hall.countP_eq hsettled hpartly' hsettled' Prod.snd fun _ _ => rfl
  · rw [hcancelled, hcancelled']
    exact hall.countP_eq hsettled hpartly' hsettled' (fun _ => false) fun r hr => hr.counted.2.1
  · rw [hretried, hretried']
    exact hall.countP_eq hsettled hpartly' hsettled' (fun k => !k.2) fun r hr => hr.counted.2.2

end Recovers

/-! ## Files -/

theorem Partly.encodes (h : Partly log recs) (hC : X.Compact) : ∀ r ∈ recs, X.Encodes r :=
  fun r hr => hC r (isSubmitted_reconciles (h.each r hr))

theorem Partly.length_le (h : Partly log recs) (hnodup : (submittedIds log).Nodup)
    (env : RecoverEnv) : (log ++ recs).length ≤ (log ++ reconciliationOf env log).length := by
  have hsubset : recs.map WalRecord.jobId ⊆ (reconciliationOf env log).map WalRecord.jobId := by
    intro id hid
    obtain ⟨r, hr, rfl⟩ := List.mem_map.mp hid
    obtain ⟨now, l, job, _, hget, hstate, _⟩ := h.each r hr
    have hfate := ((partly_reconciliationOf env hnodup).mem_fates
      (settled_reconciled env _)).mpr ⟨job, hget, hstate, rfl⟩
    obtain ⟨r', hr', heq⟩ := List.mem_map.mp hfate
    exact List.mem_map.mpr ⟨r', hr', congrArg Prod.fst heq⟩
  have hle := (h.nodup.subperm hsubset).length_le
  rw [List.length_map, List.length_map] at hle
  rw [List.length_append, List.length_append]
  exact Nat.add_le_add_left hle _

theorem reads_frames (hX : X.Lawful) (h : Reads X file log) (hrecs : ∀ r ∈ recs, X.Encodes r)
    (hlt : (log ++ recs).length + 1 < 2 ^ 64) :
    Reads X (file ++ frames X (log.length + 1) recs) (log ++ recs) := by
  induction recs generalizing file log with
  | nil => simpa [frames] using h
  | cons r recs ih =>
    rw [List.length_append, List.length_cons] at hlt
    have hsnoc := h.snoc (isFrame_frame hX _ (hrecs r (by simp))) (by omega)
    have hrest := ih hsnoc (fun r' hr' => hrecs r' (by simp [hr'])) (by simp; omega)
    rw [frames]
    simpa using hrest

theorem writeReconciliation_fits (hX : X.Lawful) (h : Reads X file log)
    (hrecs : ∀ r ∈ recs, X.Encodes r)
    (hroom : recs ≠ [] → file.length + (frames X (log.length + 1) recs).length ≤ maxFileSize) :
    writeReconciliation X recs file (UInt64.ofNat (log.length + 1)) =
      (.ok (UInt64.ofNat ((log ++ recs).length + 1)), file ++ frames X (log.length + 1) recs) := by
  induction recs generalizing file log with
  | nil => simp [writeReconciliation, frames]
  | cons r recs ih =>
    have hr := hrecs r (by simp)
    have hroom := hroom (List.cons_ne_nil _ _)
    rw [frames, List.length_append] at hroom
    have hlt : log.length + 2 < 2 ^ 64 := h.length_lt_of_room hroom
    have henc := (encode_eq_ok_iff (X := X) ⟨UInt64.ofNat (log.length + 1), r⟩ _).mpr ⟨hr, rfl⟩
    have hsucc : checkedSucc (UInt64.ofNat (log.length + 1)) =
        some (UInt64.ofNat ((log ++ [r]).length + 1)) := by
      rw [List.length_append]
      exact checkedSucc_ofNat hlt
    have hrest := ih (h.snoc (isFrame_frame hX _ hr) hlt) (fun r' hr' => hrecs r' (by simp [hr']))
      (fun _ => by simp only [List.length_append, List.length_singleton]; omega)
    simp only [writeReconciliation, henc]
    rw [if_neg (by omega), hsucc]
    simp only
    rw [hrest, frames]
    simp

theorem recover_of_reads (hX : X.Lawful) (hC : X.Compact) (h : Reads X file log)
    (hcut : Cut torn) (hnodup : (submittedIds log).Nodup) (hepoch : (maxEpoch log).toNat + 1 < 2 ^ 64)
    (hfits : Fits config (replayed (log ++ reconciliationOf env log)))
    (hroom : reconciliationOf env log ≠ [] → file.length +
      (frames X (log.length + 1) (reconciliationOf env log)).length ≤ maxFileSize) :
    ∃ rec, recover X env config (some (file ++ torn)) =
        (.ok rec, file ++ frames X (log.length + 1) (reconciliationOf env log)) ∧
      Recovers env config log rec ∧
      rec.nextSequence = UInt64.ofNat ((log ++ reconciliationOf env log).length + 1) := by
  have heq := h.recover_eq hcut hnodup hepoch env config
  rw [writeReconciliation_fits hX h ((partly_reconciliationOf env hnodup).encodes hC) hroom] at heq
  obtain ⟨rec, hfinish, _⟩ := finishRecovery_of_fits hnodup
    (UInt64.ofNat ((log ++ reconciliationOf env log).length + 1)) (maxEpoch log + 1) hfits
  obtain ⟨hrec, hseq⟩ := finishRecovery_recovers hnodup
    (checkedSucc_some (checkedSucc_of_lt hepoch)) hfinish
  simp only [hfinish] at heq
  exact ⟨rec, heq, hrec, hseq⟩

def repairedFile (X : Crates) (file : List UInt8) : List UInt8 :=
  match scanWal X file with
  | .error _ => file
  | .ok scan =>
    if file = [] then headerBytes
    else if scan.hadTruncatedTail then repairTruncatedTail file scan.lastValidOffset
    else file

def appendedFrames (X : Crates) (env : RecoverEnv) (file : List UInt8) : List UInt8 :=
  frames X ((logOf X (some file)).length + 1) (reconciliationOf env (logOf X (some file)))

theorem repairedFile_append {scan : ScanResult} (hfile : file ≠ [])
    (h : scanWal X file = .ok scan) : ∃ torn, file = repairedFile X file ++ torn ∧
      Reads X (repairedFile X file) scan.records ∧ Cut torn := by
  obtain ⟨whole, torn, hsplit, hreads, hcut, hres⟩ := scanWal_ok hfile h
  have hrepaired := hreads.repaired (congrArg ScanResult.lastValidOffset hres)
    (congrArg ScanResult.hadTruncatedTail hres)
  rw [← hsplit] at hrepaired
  have hwhole : repairedFile X file = whole := by
    simp only [repairedFile, h, if_neg hfile, hrepaired]
  rw [hwhole]
  exact ⟨torn, hsplit, hreads, hcut⟩

theorem repairedFile_reads {scan : ScanResult} (h : scanWal X file = .ok scan) :
    Reads X (repairedFile X file) scan.records := by
  by_cases hfile : file = []
  · subst hfile
    cases h
    exact reads_headerBytes
  · obtain ⟨_, _, hreads, _⟩ := repairedFile_append hfile h
    exact hreads

theorem recover_of_scan (hX : X.Lawful) (hC : X.Compact) {scan : ScanResult}
    (hscan : scanWal X file = .ok scan) (hnodup : (submittedIds scan.records).Nodup)
    (hepoch : (maxEpoch scan.records).toNat + 1 < 2 ^ 64)
    (hfits : Fits config (replayed (scan.records ++ reconciliationOf env scan.records)))
    (hroom : reconciliationOf env scan.records ≠ [] →
      (repairedFile X file).length + (appendedFrames X env file).length ≤ maxFileSize) :
    ∃ rec, recover X env config (some file) =
        (.ok rec, repairedFile X file ++ appendedFrames X env file) ∧
      Recovers env config scan.records rec ∧ rec.nextSequence =
        UInt64.ofNat ((scan.records ++ reconciliationOf env scan.records).length + 1) := by
  rw [appendedFrames, logOf_eq_records hscan] at hroom ⊢
  by_cases hfile : file = []
  · subst hfile
    cases hscan
    exact ⟨_, rfl, recovers_empty env config, rfl⟩
  · obtain ⟨torn, hsplit, hreads, hcut⟩ := repairedFile_append hfile hscan
    have hrec := recover_of_reads hX hC hreads hcut hnodup hepoch hfits hroom
    rw [← hsplit] at hrec
    exact hrec

/-! ## Interruptions -/

/-- What recoveries of `file` leave that are cut off, one after the other: the file itself,
if nothing was written, or the repaired file and behind it any part of the frames. -/
inductive Interrupted (X : Crates) (file : List UInt8) : List UInt8 → Prop
  | untouched : Interrupted X file file
  | cut {crashed written : List UInt8} (h : Interrupted X file crashed) (env : RecoverEnv)
      (hwritten : written <+: appendedFrames X env crashed) :
      Interrupted X file (repairedFile X crashed ++ written)

theorem Interrupted.scan (hX : X.Lawful) (hC : X.Compact) {scan : ScanResult}
    {crashed : List UInt8} (h : Interrupted X file crashed) (hscan : scanWal X file = .ok scan)
    (hnodup : (submittedIds scan.records).Nodup) (env : RecoverEnv)
    (hlt : (scan.records ++ reconciliationOf env scan.records).length + 1 < 2 ^ 64) :
    ∃ recs scan', scanWal X crashed = .ok scan' ∧ scan'.records = scan.records ++ recs ∧
      Partly scan.records recs := by
  induction h with
  | untouched => exact ⟨[], scan, hscan, by simp, partly_nil _⟩
  | @cut crashed written h env' hwritten ih =>
    obtain ⟨recs, scan', hscan', hrecords, hpartly⟩ := ih
    rw [appendedFrames, logOf_eq_records hscan', hrecords] at hwritten
    have hnodup' : (submittedIds (scan.records ++ recs)).Nodup :=
      hpartly.submittedIds_eq.symm ▸ hnodup
    obtain ⟨n, _, torn, rfl, htorn, _⟩ := frames_prefix_cases
      ((partly_reconciliationOf env' hnodup').encodes hC) hwritten
    have htake := partly_take env' hnodup' n
    have hmore := hpartly.append htake
    have hle := hmore.length_le hnodup env
    have hreads := repairedFile_reads hscan'
    rw [hrecords] at hreads
    have hreads' := reads_frames hX hreads (htake.encodes hC)
      (by rw [List.append_assoc]; exact lt_of_le_of_lt (Nat.succ_le_succ hle) hlt)
    rw [List.append_assoc] at hreads'
    have hscan'' := hreads'.scan htorn.isCut
    rw [List.append_assoc] at hscan''
    exact ⟨_, _, hscan'', rfl, hmore⟩

/-- Whatever part of the reconciliation is in a file already, a recovery that does the rest
ends with the same state. -/
theorem Recovers.again (hX : X.Lawful) (hC : X.Compact) {rec : RecoveredState}
    (h : Recovers env config log rec) (hnodup : (submittedIds log).Nodup)
    (hseq : rec.nextSequence = UInt64.ofNat ((log ++ reconciliationOf env log).length + 1))
    (hpartly : Partly log recs) {crashed : List UInt8} {scan : ScanResult}
    (hscan : scanWal X crashed = .ok scan) (hrecords : scan.records = log ++ recs)
    (hroom : reconciliationOf env' scan.records ≠ [] →
      (repairedFile X crashed).length + (appendedFrames X env' crashed).length ≤ maxFileSize) :
    ∃ rec', recover X env' config (some crashed) =
        (.ok rec', repairedFile X crashed ++ appendedFrames X env' crashed) ∧
      rec'.Agrees rec := by
  have hnodup' : (submittedIds (log ++ recs)).Nodup := hpartly.submittedIds_eq.symm ▸ hnodup
  have hepoch : (maxEpoch scan.records).toNat + 1 < 2 ^ 64 := by
    rw [hrecords, hpartly.maxEpoch_eq, ← h.nextLeaseEpoch]
    exact rec.nextLeaseEpoch.toNat_lt
  have hfits : Fits config (replayed (scan.records ++ reconciliationOf env' scan.records)) := by
    refine h.fits.congr fun id => ?_
    rw [hrecords, get_replay_reconciled, hpartly.map_reconciled, h.get_store]
  obtain ⟨rec', hrec', hrecovers', hseq'⟩ :=
    recover_of_scan hX hC hscan (hrecords.symm ▸ hnodup') hepoch hfits hroom
  rw [hrecords] at hrecovers' hseq'
  exact ⟨rec', hrec', h.agrees hnodup hpartly hrecovers' hseq' hseq⟩

/-- Recovery can be cut off and begun again.  If a recovery of a file that can be scanned
succeeds, then after any interruptions of recoveries of that file a recovery ends with the
same state, as long as the file has room for its frames; after a completed recovery it also
appends nothing.  No recovery changes the attempts of a job. -/
theorem recover_restartable (hX : X.Lawful) (hC : X.Compact) {scan : ScanResult}
    (hscan : scanWal X file = .ok scan) (hnodup : (submittedIds scan.records).Nodup)
    {rec : RecoveredState} (hrec : recover X env config (some file) = (.ok rec, file')) :
    (∀ crashed env', Interrupted X file crashed →
      (repairedFile X crashed).length + (appendedFrames X env' crashed).length ≤ maxFileSize →
      ∃ rec' file'', recover X env' config (some crashed) = (.ok rec', file'') ∧
        rec'.Agrees rec) ∧
    (∀ env', ∃ rec', recover X env' config (some file') = (.ok rec', file') ∧
      rec'.Agrees rec) ∧
    ∀ id, (rec.store.get id).map (·.attempts) =
      ((replayed scan.records).get id).map (·.attempts) := by
  have hlog := logOf_eq_records hscan
  have hrecovers := recover_recovers (by rw [hlog]; exact hnodup) hrec
  obtain ⟨hreads, hseq⟩ := recover_reads hX hrec
  rw [hlog] at hrecovers hreads hseq
  refine ⟨?_, ?_, hrecovers.attempts⟩
  · intro crashed env' hcrashed hroom
    obtain ⟨recs, scan', hscan', hrecords, hpartly⟩ :=
      hcrashed.scan hX hC hscan hnodup env hreads.length_lt
    obtain ⟨rec', hrec', hagrees⟩ :=
      hrecovers.again hX hC hnodup hseq hpartly hscan' hrecords fun _ => hroom
    exact ⟨rec', _, hrec', hagrees⟩
  · intro env'
    have hscan' := hreads.scan .nil
    rw [List.append_nil] at hscan'
    have hpartly := partly_reconciliationOf env hnodup
    have hnil : reconciliationOf env' (scan.records ++ reconciliationOf env scan.records) = [] :=
      (settled_reconciled env _).reconciliationOf env'
    obtain ⟨rec', hrec', hagrees⟩ :=
      hrecovers.again hX hC hnodup hseq hpartly hscan' rfl fun hne => absurd hnil hne
    have hrepaired : repairedFile X file' = file' := by
      simp only [repairedFile, hscan', if_neg hreads.ne_nil]
      rfl
    have hframes : appendedFrames X env' file' = [] := by
      rw [appendedFrames, logOf_eq_records hscan']
      simp only [ScanState.finish, ScanState.after]
      rw [hnil, frames]
    rw [hrepaired, hframes, List.append_nil] at hrec'
    exact ⟨rec', hrec', hagrees⟩

def tornAgain : List UInt8 :=
  repairedFile Postcard.crates tornFile ++
    (appendedFrames Postcard.crates mailBoot.recovery tornFile).take 5

theorem recover_restartable_torn : ∃ rec rec' file,
    recover Postcard.crates mailBoot.recovery mailConfig (some tornFile) =
      (.ok rec, tornWriter.file) ∧
    recover Postcard.crates mailBoot.recovery mailConfig (some tornAgain) = (.ok rec', file) ∧
    rec'.Agrees rec := by
  obtain ⟨rec, hrec, _⟩ := tornWriter_recovers
  have hok : (scanWal Postcard.crates tornFile).isOk := by decide +kernel
  rcases hscan : scanWal Postcard.crates tornFile with e | scan
  · rw [hscan] at hok
    cases hok
  have hids : submittedIds (logOf Postcard.crates (some tornFile)) = [⟨1⟩] := by decide +kernel
  rw [logOf_eq_records hscan] at hids
  have hroom : (repairedFile Postcard.crates tornAgain).length +
      (appendedFrames Postcard.crates mailBoot.recovery tornAgain).length ≤ maxFileSize := by
    decide +kernel
  obtain ⟨rec', file, hrec', hagrees⟩ :=
    (recover_restartable Postcard.crates_lawful Postcard.crates_compact hscan
      (hids ▸ List.nodup_singleton _) hrec).1 tornAgain mailBoot.recovery
      (.cut .untouched mailBoot.recovery (List.take_prefix _ _)) hroom
  exact ⟨rec, rec', file, hrec, hrec', hagrees⟩

end DurableQueue
