import DurableQueue.Defs.Endings

/-! The two size limits a submission meets: that of its payload, and that of its record in
the log. -/

namespace DurableQueue

open Wire

/-! ## The size of a submission's record -/

/-- The bytes of a submission's record on the wire.  The discriminant and the id take 18. -/
def submissionSize (queue : QueueName) (spec : JobSpec) (createdAt : UnixMillis) : Nat :=
  18 + (Postcard.putQueue queue).length + (block spec.payload).length +
    (Postcard.putU32 spec.maxAttempts).length + (Postcard.putTime createdAt).length

namespace Postcard

theorem length_putId_eq (id : JobId) : (putId id).length = 17 := by
  simp [putId, block, varint]

theorem length_put_submitted (id : JobId) (queue : QueueName) (spec : JobSpec) (t : UnixMillis) :
    (put (.jobSubmitted id queue spec t)).length = submissionSize queue spec t := by
  simp only [put, List.length_cons, List.length_append, length_putId_eq, submissionSize]
  omega

theorem length_le_block (bytes : List UInt8) : bytes.length ≤ (block bytes).length := by
  rw [block, List.length_append]
  exact Nat.le_add_left _ _

theorem encodes_submitted_iff (id : JobId) (queue : QueueName) (spec : JobSpec) (t : UnixMillis) :
    crates.Encodes (.jobSubmitted id queue spec t) ↔ submissionSize queue spec t ≤ maxRecordSize := by
  rw [← length_put_submitted id]
  constructor
  · rintro ⟨payload, hpayload, hlength⟩
    change toAllocvec _ = _ at hpayload
    unfold toAllocvec at hpayload
    split at hpayload
    · cases hpayload
      exact hlength
    · cases hpayload
  · intro hlength
    refine ⟨_, ?_, hlength⟩
    have hqueue := length_le_block queue.asStr.toByteArray.data.toList
    have hpayload := length_le_block spec.payload
    rw [length_put_submitted, submissionSize, putQueue] at hlength
    simp only [maxRecordSize] at hlength
    change toAllocvec _ = _
    rw [toAllocvec, if_pos]
    simp only [fits, Bool.and_eq_true, decide_eq_true_eq]
    omega

end Postcard

namespace Coordinator

variable {X : Crates} {config : RuntimeConfig} {env : Env}

/-! ## Acceptance -/

theorem persist_wal_isOk_iff {w : WriterThread} {r : WalRecord}
    (hroom : w.file.length + (frameOverhead + maxRecordSize) ≤ maxFileSize) :
    ((Storage.wal w).persist X r .none).1.isOk ↔ X.Encodes r := by
  have hwrite : ((Storage.wal w).persist X r .none).1.isOk =
      (w.processWrite X r .none).1.isOk := by
    simp only [Storage.persist]
    rcases w.processWrite X r .none with ⟨result, w'⟩
    cases result <;> rfl
  rw [hwrite]
  constructor
  · intro hok
    rcases hw : w.processWrite X r .none with ⟨result, w'⟩
    cases result with
    | error e =>
      rw [hw] at hok
      cases hok
    | ok seq => exact (WriterThread.processWrite_ok hw).1
  · rintro ⟨payload, hpayload, hlength⟩
    have hencode : WalFrame.encode X ⟨w.nextSeq, r⟩ =
        .ok (WalFrame.bytes X ⟨w.nextSeq, r⟩ payload) := by
      rw [WalFrame.encode, hpayload]
      exact if_neg (Nat.not_lt.mpr hlength)
    simp only [WriterThread.processWrite, hencode, WalFrame.length_bytes]
    rw [if_neg (by omega)]
    rfl

theorem persist_returns {s : Coordinator} {fault : Fault} (h : env.fate s.tick = .returns fault)
    (r : WalRecord) : persist X env r s =
      match s.storage.persist X r fault with
      | (.ok seq, st) => .ok (.ok seq)
          { s with storage := st, journal := s.journal ++ [.acked r], tick := s.tick + 1 }
      | (.error e, st) => .ok (.error e)
          { s with storage := st, journal := s.journal ++ [.failed r e], tick := s.tick + 1 } := by
  unfold persist
  rw [h]
  rfl

def Admits (X : Crates) (config : RuntimeConfig) (env : Env) (queue : QueueName) (spec : JobSpec)
    (permit : OwnedSemaphorePermit) (s : Coordinator) : Prop :=
  ∃ job s', doSubmit X config env queue spec permit s = .ok (.ok job) s'

/-- The coordinator accepts the submission, or has taken it when it panics in handing the job to
a worker. -/
def Takes (X : Crates) (config : RuntimeConfig) (env : Env) (queue : QueueName) (spec : JobSpec)
    (permit : OwnedSemaphorePermit) (s : Coordinator) : Prop :=
  Admits X config env queue spec permit s ∨
    ∃ s', doSubmit X config env queue spec permit s = .error .panic s'

def Submittable (X : Crates) (env : Env) (queue : QueueName) (spec : JobSpec) (s : Coordinator) :
    Prop :=
  (s.queues.get queue.asStr).isSome ∧ spec.payload.length ≤ maxPayloadSize ∧
    (s.storage.persist X (.jobSubmitted (env.uuid s.tick) queue spec (env.wall (s.tick + 1)))
      .none).1.isOk

theorem doSubmit_takes {s : Coordinator} (hfate : ∀ t, env.fate t = .returns .none)
    (queue : QueueName) (spec : JobSpec) (permit : OwnedSemaphorePermit) {E : Crash → Prop}
    (hlease : Ends E (nowPlus env config.visibilityTimeout)) :
    wp (doSubmit X config env queue spec permit)
      (fun result _ => result.isOk ↔ Submittable X env queue spec s)
      (fun c _ => E c ∧ Submittable X env queue spec s) s := by
  refine (wp_bind _ _).mpr (wp_get.mpr ?_)
  split
  · rename_i hqueue
    refine iff_of_false (by simp [Except.isOk, Except.toBool]) fun h => ?_
    rw [← Option.not_isSome, h.1] at hqueue
    cases hqueue
  rename_i hqueue
  rw [Option.isNone_iff_eq_none, ← ne_eq, Option.ne_none_iff_isSome] at hqueue
  split
  · rename_i hpayload
    refine iff_of_false (by simp [Except.isOk, Except.toBool]) fun h => ?_
    exact absurd h.2.1 (Nat.not_le.mpr hpayload)
  rename_i hpayload
  refine (wp_bind _ _).mpr (wp_draw.mpr ((wp_bind _ _).mpr (wp_draw.mpr ((wp_bind _ _).mpr ?_))))
  unfold wp
  rw [persist_returns (hfate _)]
  dsimp only
  rcases hstorage : s.storage.persist X
    (.jobSubmitted (env.uuid s.tick) queue spec (env.wall (s.tick + 1))) .none with ⟨result, st⟩
  cases result with
  | error e =>
    refine iff_of_false (by simp [Except.isOk, Except.toBool]) fun h => ?_
    rw [Submittable, hstorage] at h
    cases h.2.2
  | ok seq =>
    have hsub : Submittable X env queue spec s :=
      ⟨hqueue, Nat.not_lt.mp hpayload, by rw [hstorage]; rfl⟩
    refine (wp_bind _ _).mpr (wp_applyRecord_ok rfl ((wp_bind _ _).mpr (wp_get.mpr
      ((wp_bind _ _).mpr ((wp_modify _).mpr ((wp_bind _ _).mpr ?_))))))
    have hpersist := persist_ends (X := X) (E := E) fun t => ⟨_, hfate t⟩
    refine wp_mono (tryDispatchParkedWorkers_ends hpersist hlease _) ?_ ?_
    · exact fun _ _ _ => iff_of_true rfl hsub
    · exact fun _ _ hc => ⟨hc, hsub⟩

theorem takes_iff {s : Coordinator} (hfate : ∀ t, env.fate t = .returns .none)
    (queue : QueueName) (spec : JobSpec) (permit : OwnedSemaphorePermit) :
    Takes X config env queue spec permit s ↔ Submittable X env queue spec s := by
  have hwp : wp (doSubmit X config env queue spec permit)
      (fun result _ => result.isOk ↔ Submittable X env queue spec s)
      (fun c _ => c = .panic ∧ Submittable X env queue spec s) s :=
    doSubmit_takes hfate queue spec permit (nowPlus_ends fun _ _ => rfl)
  unfold wp at hwp
  constructor
  · rintro (⟨job, s', hok⟩ | ⟨s', hpanic⟩)
    · rw [hok] at hwp
      exact hwp.mp rfl
    · rw [hpanic] at hwp
      exact hwp.2
  · intro hsub
    rcases hrun : doSubmit X config env queue spec permit s with ⟨result, s'⟩ | ⟨c, s'⟩
    · rw [hrun] at hwp
      cases result with
      | error e => exact absurd (hwp.mpr hsub) (by simp [Except.isOk, Except.toBool])
      | ok job => exact Or.inl ⟨job, s', hrun⟩
    · rw [hrun] at hwp
      exact Or.inr ⟨s', hwp.1 ▸ hrun⟩

theorem Takes.admits {s : Coordinator} {queue : QueueName} {spec : JobSpec}
    {permit : OwnedSemaphorePermit} (h : Takes X config env queue spec permit s)
    (hfate : ∀ t, env.fate t = .returns .none)
    (hfits : ∀ t, (env.instant t).Fits config.visibilityTimeout) :
    Admits X config env queue spec permit s := by
  rcases h with h | ⟨s', hpanic⟩
  · exact h
  · have hlease : Ends (fun _ => False) (nowPlus env config.visibilityTimeout) :=
      nowPlus_ends fun t ht => ht (hfits t)
    exact (wp_error (doSubmit_takes hfate queue spec permit hlease) hpanic).1.elim

/-- A submission's record encodes iff it fits into the largest payload of a frame; so the
storage on a log takes what the storage in memory takes, but for the records that do not.
What is taken is accepted, unless a lease granted at once would end beyond the last instant. -/
theorem submissions_encodable_iff (queue : QueueName) (spec : JobSpec) :
    (∀ id createdAt seq,
      (∃ bytes, WalFrame.encode Postcard.crates ⟨seq, .jobSubmitted id queue spec createdAt⟩ =
        .ok bytes) ↔ submissionSize queue spec createdAt ≤ maxRecordSize) ∧
    ∀ (config : RuntimeConfig) (env : Env) (s : Coordinator) (w : WriterThread) permit,
      (∀ t, env.fate t = .returns .none) →
      w.file.length + (frameOverhead + maxRecordSize) ≤ maxFileSize →
      (Takes Postcard.crates config env queue spec permit { s with storage := .wal w } ↔
        Takes Postcard.crates config env queue spec permit { s with storage := .memory } ∧
          submissionSize queue spec (env.wall (s.tick + 1)) ≤ maxRecordSize) ∧
      ((∀ t, (env.instant t).Fits config.visibilityTimeout) →
        (Admits Postcard.crates config env queue spec permit { s with storage := .wal w } ↔
          Admits Postcard.crates config env queue spec permit { s with storage := .memory } ∧
            submissionSize queue spec (env.wall (s.tick + 1)) ≤ maxRecordSize)) := by
  constructor
  · intro id createdAt seq
    rw [← Postcard.encodes_submitted_iff id]
    simp only [encode_eq_ok_iff, exists_and_left, exists_eq, and_true]
  · intro config env s w permit hfate hroom
    have htakes : Takes Postcard.crates config env queue spec permit { s with storage := .wal w } ↔
        Takes Postcard.crates config env queue spec permit { s with storage := .memory } ∧
          submissionSize queue spec (env.wall (s.tick + 1)) ≤ maxRecordSize := by
      rw [takes_iff hfate, takes_iff hfate, ← Postcard.encodes_submitted_iff (env.uuid s.tick),
        ← persist_wal_isOk_iff hroom]
      simp only [Submittable, Storage.persist, Except.isOk, Except.toBool, and_true, and_assoc]
    refine ⟨htakes, fun hfits => ⟨fun h => ?_, fun h => ?_⟩⟩
    · obtain ⟨hmemory, hsize⟩ := htakes.mp (.inl h)
      exact ⟨hmemory.admits hfate hfits, hsize⟩
    · exact (htakes.mpr ⟨.inl h.1, h.2⟩).admits hfate hfits

/-- The record of a job of two bytes encodes, and the job is accepted on a log. -/
theorem submissions_encodable_small :
    (∃ bytes, WalFrame.encode Postcard.crates
      ⟨1, .jobSubmitted ⟨1⟩ ⟨"mail"⟩ ⟨[1, 2], 3⟩ ⟨0⟩⟩ = .ok bytes) ∧
    Admits Postcard.crates mailConfig (mailEnv ⟨1⟩ .none) ⟨"mail"⟩ ⟨[1, 2], 3⟩ ⟨"mail"⟩
      mailAcquired := by
  obtain ⟨hencodes, hadmits⟩ := submissions_encodable_iff ⟨"mail"⟩ ⟨[1, 2], 3⟩
  have hsize : submissionSize ⟨"mail"⟩ ⟨[1, 2], 3⟩ ⟨0⟩ ≤ maxRecordSize := by decide
  refine ⟨(hencodes _ _ _).mpr hsize, ?_⟩
  refine ((hadmits mailConfig (mailEnv ⟨1⟩ .none) mailAcquired .fresh ⟨"mail"⟩ (fun _ => rfl)
    (by decide)).2 fun _ => ?_).mpr ⟨?_, hsize⟩
  · exact (by decide : Instant.Fits ⟨0⟩ mailConfig.visibilityTimeout)
  · exact ⟨_, _, rfl⟩

def fullSpec : JobSpec := ⟨List.replicate maxPayloadSize 0, 3⟩

theorem fullSpec_too_large (queue : QueueName) (createdAt : UnixMillis) :
    ¬ submissionSize queue fullSpec createdAt ≤ maxRecordSize := by
  have hblock := Postcard.length_le_block fullSpec.payload
  rw [fullSpec, List.length_replicate] at hblock
  simp only [submissionSize, fullSpec, maxPayloadSize, maxRecordSize] at hblock ⊢
  omega

/-- A payload of the largest admitted size passes validation and memory takes it, but its record
never encodes and the log refuses it. -/
theorem full_payload_refused :
    fullSpec.payload.length ≤ maxPayloadSize ∧
    (∀ id createdAt seq bytes,
      WalFrame.encode Postcard.crates ⟨seq, .jobSubmitted id ⟨"mail"⟩ fullSpec createdAt⟩ ≠
        .ok bytes) ∧
    Admits Postcard.crates mailConfig (mailEnv ⟨1⟩ .none) ⟨"mail"⟩ fullSpec ⟨"mail"⟩
      { mailAcquired with storage := .memory } ∧
    ¬ Admits Postcard.crates mailConfig (mailEnv ⟨1⟩ .none) ⟨"mail"⟩ fullSpec ⟨"mail"⟩
      mailAcquired := by
  have hsize : fullSpec.payload.length ≤ maxPayloadSize := List.length_replicate.le
  refine ⟨hsize, fun id createdAt seq bytes hok => ?_, ?_, fun hadmits => ?_⟩
  · have hencodes := ((encode_eq_ok_iff _ _).mp hok).1
    exact fullSpec_too_large _ _ ((Postcard.encodes_submitted_iff ..).mp hencodes)
  · refine ((takes_iff (fun _ => rfl) ..).mpr ⟨rfl, hsize, rfl⟩).admits (fun _ => rfl) fun _ => ?_
    exact (by decide : Instant.Fits ⟨0⟩ mailConfig.visibilityTimeout)
  · obtain ⟨-, -, hok⟩ := (takes_iff (fun _ => rfl) ..).mp (.inl hadmits)
    have hencodes := (persist_wal_isOk_iff (w := .fresh) (by decide)).mp hok
    exact fullSpec_too_large _ _ ((Postcard.encodes_submitted_iff ..).mp hencodes)

end Coordinator

end DurableQueue
