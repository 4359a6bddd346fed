import DurableQueue.Defs.Backoff
import DurableQueue.Defs.StartLaws

/-! Retry times in milliseconds of the wall clock: what `schedule_retry` persists and what a
recovery makes of it, against exact integers. -/

namespace DurableQueue

def Event.asPersist : Event → Option WalRecord
  | .acked record => some record
  | .failed record _ => some record
  | _ => none

def Crash.appending : Crash → List WalRecord
  | .append record _ => [record]
  | .panic => []

namespace Coordinator

variable {X : Crates} {config : RuntimeConfig} {env : Env} {s : Coordinator}

def persistCalls {α : Type} (m : CoordM α) (s : Coordinator) : List WalRecord :=
  match m s with
  | .ok _ s' => (s'.journal.drop s.journal.length).filterMap Event.asPersist
  | .error c s' => (s'.journal.drop s.journal.length).filterMap Event.asPersist ++ c.appending

def retryAt (now : UnixMillis) (delay : Duration) : UnixMillis :=
  ⟨now.asMillis + Int64.ofNat delay.asMillis⟩

theorem persistCalls_eq {α : Type} {m : CoordM α} {records : List WalRecord}
    (h : wp m
      (fun _ s' => (s'.journal.drop s.journal.length).filterMap Event.asPersist = records)
      (fun c s' => (s'.journal.drop s.journal.length).filterMap Event.asPersist ++ c.appending =
        records) s) : persistCalls m s = records := by
  unfold persistCalls
  split
  · rename_i hm
    have hcalls := wp_ok h hm
    exact hcalls
  · rename_i hm
    have hcalls := wp_error h hm
    exact hcalls

theorem scheduleRetry_persistCalls (id : JobId) (leaseId : LeaseId) (queue : QueueName)
    (attempt : UInt32) :
    persistCalls (scheduleRetry X config env id leaseId queue attempt) s =
      [.jobRetryScheduled id leaseId attempt (retryAt (env.wall (s.tick + 1))
        (config.retry.delayWithRng attempt (env.rng s.tick)))] := by
  apply persistCalls_eq
  unfold scheduleRetry
  refine (wp_bind _ _).mpr (wp_draw.mpr ((wp_bind _ _).mpr (wp_draw.mpr ((wp_bind _ _).mpr ?_))))
  refine wp_persist (P := fun _ => True) (fun _ => trivial) ?_ ?_ ?_
  · intro fault seq st _ _
    refine (wp_bind _ _).mpr (wp_applyRecord ?_ ?_)
    · intro store
      refine (wp_bind _ _).mpr (wp_nowPlus (fun _ => (wp_modify _).mpr ?_) fun _ => ?_)
      · simp [exposeRetry, updateStats, updateQueue, Event.asPersist, retryAt]
      · simp [Crash.appending, Event.asPersist, retryAt]
    · intro e
      simp [Event.asPersist, retryAt]
  · intro fault e st _ _
    simp [refuse, Event.asPersist, retryAt]
  · intro writer written _
    simp [Crash.appending, retryAt]

/-! ## Against exact integers -/

theorem toInt_retryAt (now : UnixMillis) (delay : Duration) :
    (retryAt now delay).asMillis.toInt =
      (now.asMillis.toInt + delay.asMillis).bmod (2 * 2 ^ 63) := by
  rw [retryAt, Int64.toInt_add, Int64.toInt_ofNat']
  exact Int.add_bmod_bmod

/-- The sum of a time and a delay, when it fits, is the exact one held at the largest time;
beyond that only by accident. -/
theorem retryAt_exact_iff {now : UnixMillis} (hnow : 0 ≤ now.asMillis.toInt) (delay : Duration) :
    (retryAt now delay).asMillis.toInt = min (now.asMillis.toInt + delay.asMillis) (2 ^ 63 - 1) ↔
      now.asMillis.toInt + delay.asMillis < 2 ^ 63 ∨
        (now.asMillis.toInt + delay.asMillis) % 2 ^ 64 = 2 ^ 63 - 1 := by
  rw [toInt_retryAt]
  exact Word.bmod_eq_min_iff (by decide) (by omega)

theorem scheduleRetry_exact_of_maxDelay (X : Crates) (env : Env) (s : Coordinator) (id : JobId)
    (leaseId : LeaseId) (queue : QueueName) (attempt : UInt32)
    (hnow : 0 ≤ (env.wall (s.tick + 1)).asMillis.toInt)
    (hmax : (env.wall (s.tick + 1)).asMillis.toInt + config.retry.maxDelay.asMillis < 2 ^ 63) :
    ∃ availableAt, persistCalls (scheduleRetry X config env id leaseId queue attempt) s =
        [.jobRetryScheduled id leaseId attempt availableAt] ∧
      availableAt.asMillis.toInt = (env.wall (s.tick + 1)).asMillis.toInt +
        (config.retry.delayWithRng attempt (env.rng s.tick)).asMillis := by
  refine ⟨_, scheduleRetry_persistCalls id leaseId queue attempt, ?_⟩
  have hdelay : (config.retry.delayWithRng attempt (env.rng s.tick)).asMillis ≤
      config.retry.maxDelay.asMillis :=
    Nat.div_le_div_right ((config.retry.delayWithRng_le attempt _).trans
      (config.retry.capForAttempt_le attempt))
  rw [toInt_retryAt]
  exact Word.bmod_eq_self (by omega) (by omega)

theorem nanos_recoveredDeadline (boot : BootEnv) (availableAt : UnixMillis) :
    (recoveredDeadline boot availableAt).nanos = boot.now.nanos + 10 ^ 6 *
      (max ((availableAt.asMillis.toInt - boot.wallNow.asMillis.toInt).bmod (2 * 2 ^ 63))
        0).toNat := by
  rw [recoveredDeadline, Instant.add, Duration.asNanos_fromMillis, Word.toNat_toUInt64_max_zero,
    Int64.toInt_sub, Nat.mul_comm]
  rfl

/-- The remaining time is exact unless the difference falls below the least `i64`. -/
theorem recoveredDeadline_exact_iff {boot : BootEnv} (hboot : 0 ≤ boot.wallNow.asMillis.toInt)
    (availableAt : UnixMillis) :
    (recoveredDeadline boot availableAt).nanos = boot.now.nanos + 10 ^ 6 *
        (max (availableAt.asMillis.toInt - boot.wallNow.asMillis.toInt) 0).toNat ↔
      -2 ^ 63 ≤ availableAt.asMillis.toInt - boot.wallNow.asMillis.toInt := by
  have hlow := availableAt.asMillis.le_toInt
  have hhigh := availableAt.asMillis.toInt_lt
  have hwall := boot.wallNow.asMillis.toInt_lt
  have hiff := Word.max_bmod_zero_iff (m := 2 ^ 63)
    (show -(2 * (2 ^ 63 : Nat)) < availableAt.asMillis.toInt - boot.wallNow.asMillis.toInt by omega)
    (by omega)
  rw [nanos_recoveredDeadline]
  refine Iff.trans ?_ hiff
  omega

/-- A retry is persisted at its exact time iff that fits into an `i64`, an accident of
wrapping apart, and a recovery waits for exactly what is left of it iff the difference of
the two times fits. -/
theorem retry_times_exact_iff (X : Crates) (config : RuntimeConfig) (env : Env) (s : Coordinator)
    (id : JobId) (leaseId : LeaseId) (queue : QueueName) (attempt : UInt32)
    (hnow : 0 ≤ (env.wall (s.tick + 1)).asMillis.toInt) (boot : BootEnv) (storage : Storage)
    (semaphores : HashMap String Semaphore) (recovered : RecoveredState)
    (hboot : 0 ≤ boot.wallNow.asMillis.toInt) :
    let now := (env.wall (s.tick + 1)).asMillis.toInt
    let delay := (config.retry.delayWithRng attempt (env.rng s.tick)).asMillis
    (∃ availableAt,
      persistCalls (scheduleRetry X config env id leaseId queue attempt) s =
        [.jobRetryScheduled id leaseId attempt availableAt] ∧
      (availableAt.asMillis.toInt = min (now + delay) (2 ^ 63 - 1) ∧
          now ≤ availableAt.asMillis.toInt ↔
        now + delay < 2 ^ 63 ∨ (now + delay) % 2 ^ 64 = 2 ^ 63 - 1)) ∧
    ∀ entry ∈ (newWithRecovery boot config storage semaphores (some recovered)).retryQueue,
      let remaining := entry.wallClockAvailableAt.asMillis.toInt - boot.wallNow.asMillis.toInt
      (entry.availableAt.nanos = boot.now.nanos + 10 ^ 6 * (max remaining 0).toNat ↔
        -2 ^ 63 ≤ remaining) := by
  refine ⟨⟨_, scheduleRetry_persistCalls id leaseId queue attempt, ?_⟩, ?_⟩
  · rw [← retryAt_exact_iff hnow]
    refine ⟨And.left, fun hexact => ⟨hexact, ?_⟩⟩
    have hlt := (env.wall (s.tick + 1)).asMillis.toInt_lt
    rw [hexact]
    omega
  · intro entry hentry
    obtain ⟨⟨job, id', availableAt⟩, -, rfl⟩ := List.mem_map.mp hentry
    exact recoveredDeadline_exact_iff hboot availableAt

def retriedLog (availableAt : UnixMillis) : List WalRecord :=
  [.jobSubmitted ⟨1⟩ ⟨"mail"⟩ ⟨[1, 2], 3⟩ ⟨0⟩, .jobLeased ⟨1⟩ ⟨1⟩ 1 ⟨0⟩,
    .jobRetryScheduled ⟨1⟩ ⟨1⟩ 1 availableAt]

def retriedStart (availableAt wallNow : UnixMillis) :
    Except Error Coordinator × Option (List UInt8) :=
  startWal Postcard.crates { mailBoot with wallNow := wallNow } mailConfig
    (some (logBytes Postcard.crates (retriedLog availableAt)))

/-- A tenth of a second from one second past the epoch, and what is left of it 40 ms later. -/
theorem retry_times_exact_mail :
    (∃ availableAt, persistCalls (scheduleRetry Postcard.crates mailConfig
        { mailEnv ⟨2⟩ .none with wall := fun _ => ⟨1000⟩ } ⟨1⟩ ⟨1⟩ ⟨"mail"⟩ 1) mailLeased =
      [.jobRetryScheduled ⟨1⟩ ⟨1⟩ 1 availableAt] ∧ availableAt.asMillis.toInt = 1100) ∧
    ∃ s₀ file, retriedStart ⟨1100⟩ ⟨1040⟩ = (.ok s₀, file) ∧
      ∃ entry ∈ s₀.retryQueue, entry.availableAt.nanos = 60 * 10 ^ 6 := by
  obtain ⟨file, hstart⟩ := startWal_of_isOk mailStart
    (show (retriedStart ⟨1100⟩ ⟨1040⟩).1.isOk = true by decide +kernel)
  have hqueue : (startedOr mailStart (retriedStart ⟨1100⟩ ⟨1040⟩).1).retryQueue.map
      RetryEntry.wallClockAvailableAt = [⟨1100⟩] := by
    decide +kernel
  obtain ⟨rec, f, sems, -, -, -, -, hs₀⟩ := startWal_ok hstart
  obtain ⟨⟨availableAt, hcalls, hpersisted⟩, hrecovered⟩ := retry_times_exact_iff Postcard.crates
    mailConfig { mailEnv ⟨2⟩ .none with wall := fun _ => ⟨1000⟩ } mailLeased ⟨1⟩ ⟨1⟩ ⟨"mail"⟩ 1
    (by decide) { mailBoot with wallNow := ⟨1040⟩ } (.wal ⟨f, rec.nextSequence⟩) sems rec (by decide)
  refine ⟨⟨availableAt, hcalls, ?_⟩, _, file, hstart, ?_⟩
  · have hexact := (hpersisted.mpr (.inl (by decide))).1
    exact hexact.trans (by decide)
  · obtain ⟨entry, hentry, hwall⟩ := List.mem_map.mp
      (show ⟨1100⟩ ∈ (startedOr mailStart (retriedStart ⟨1100⟩ ⟨1040⟩).1).retryQueue.map
        RetryEntry.wallClockAvailableAt from hqueue ▸ List.mem_singleton_self _)
    have hexact := (hrecovered entry (hs₀ ▸ hentry)).mpr (hwall ▸ by decide)
    refine ⟨entry, hentry, hexact.trans ?_⟩
    rw [hwall]
    decide

def hugeRetry : RetryConfig :=
  ⟨.fromSecs (UInt64.ofNat (u64Max / 1000)), .fromSecs (UInt64.ofNat (u64Max / 1000)), .none⟩

/-- With a valid configuration the time of a retry can lie before the time it is scheduled at;
and a time long past, read back from a log, can become the longest wait there is. -/
theorem retry_times_wrap :
    hugeRetry.validate = .ok () ∧
    persistCalls (scheduleRetry Postcard.crates { mailConfig with retry := hugeRetry }
        { mailEnv ⟨2⟩ .none with wall := fun _ => ⟨1000⟩ } ⟨1⟩ ⟨1⟩ ⟨"mail"⟩ 1) mailLeased =
      [.jobRetryScheduled ⟨1⟩ ⟨1⟩ 1 ⟨384⟩] ∧
    min (1000 + ((hugeRetry.capForAttempt 1).asMillis : Int)) (2 ^ 63 - 1) = 2 ^ 63 - 1 ∧
    ∃ s₀ file, retriedStart ⟨Int64.minValue⟩ ⟨1⟩ = (.ok s₀, file) ∧
      s₀.retryQueue = [⟨⟨(2 ^ 63 - 1) * 10 ^ 6⟩, ⟨Int64.minValue⟩, ⟨1⟩⟩] := by
  obtain ⟨file, hstart⟩ := startWal_of_isOk mailStart
    (show (retriedStart ⟨Int64.minValue⟩ ⟨1⟩).1.isOk = true by decide +kernel)
  exact ⟨by decide, by decide +kernel, by decide +kernel, _, file, hstart, by decide +kernel⟩

end Coordinator

end DurableQueue
