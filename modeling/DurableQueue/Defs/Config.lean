import DurableQueue.Lib.HashMap
import DurableQueue.Defs.Types

/-! Runtime configuration, its validation and the retry backoff. -/

namespace DurableQueue

structure QueueConfig where
  name : QueueName
  capacity : Nat
  deriving DecidableEq

inductive Jitter
  | none | full
  deriving DecidableEq

structure RetryConfig where
  baseDelay : Duration
  maxDelay : Duration
  jitter : Jitter
  deriving DecidableEq

namespace RetryConfig

def validate (c : RetryConfig) : Except Error Unit :=
  if c.baseDelay.isZero then
    .error (.invalidConfiguration "retry base_delay must be positive")
  else if c.maxDelay.isZero then
    .error (.invalidConfiguration "retry max_delay must be positive")
  else if c.baseDelay.asNanos > c.maxDelay.asNanos then
    .error (.invalidConfiguration "retry base_delay must not exceed max_delay")
  else .ok ()

/-- The doubling loop: `n` rounds left, leaving early once the cap is reached. -/
def backoff (maxDelay : Duration) : Nat → Duration → Duration
  | 0, d => d.min maxDelay
  | n + 1, d =>
    let d := d.saturatingMul 2
    if d.asNanos ≥ maxDelay.asNanos then maxDelay else backoff maxDelay n d

def capForAttempt (c : RetryConfig) (attempt : UInt32) : Duration :=
  backoff c.maxDelay (min (attempt.toNat - 1) 63) c.baseDelay

end RetryConfig

/-- One call of the random generator: `random_range(0..=hi)`. -/
structure Rng where
  randomRange : UInt64 → UInt64
  le : ∀ hi, randomRange hi ≤ hi

def u64Max : Nat := 2 ^ 64 - 1

def RetryConfig.delayWithRng (c : RetryConfig) (attempt : UInt32) (rng : Rng) : Duration :=
  let cap := c.capForAttempt attempt
  match c.jitter with
  | .none => cap
  | .full =>
    let capNanos := cap.asNanos
    if capNanos = 0 then Duration.zero
    else
      let jitteredNanos :=
        if capNanos ≤ u64Max then (rng.randomRange (UInt64.ofNat capNanos)).toNat
        else
          -- very large durations: sample a `u64` and scale it
          let scale := capNanos / u64Max
          let base := (rng.randomRange (UInt64.ofNat u64Max)).toNat
          min (base * scale) capNanos
      Duration.fromNanos (UInt64.ofNat (min jitteredNanos u64Max))

structure RuntimeConfig where
  queues : List QueueConfig
  channelCapacity : Nat
  workerConcurrency : Nat
  visibilityTimeout : Duration
  retry : RetryConfig
  shutdownTimeout : Duration
  deriving DecidableEq

namespace RuntimeConfig

def validateQueues : List String → List QueueConfig → Except Error Unit
  | _, [] => .ok ()
  | seen, q :: qs =>
    if q.capacity = 0 then
      .error (.invalidConfiguration ("queue '" ++ q.name.asStr ++ "' has zero capacity"))
    else if q.name.asStr ∈ seen then
      .error (.invalidConfiguration ("duplicate queue name: '" ++ q.name.asStr ++ "'"))
    else validateQueues (q.name.asStr :: seen) qs

def validate (c : RuntimeConfig) : Except Error Unit :=
  if c.channelCapacity = 0 then
    .error (.invalidConfiguration "channel capacity must be positive")
  else if c.workerConcurrency = 0 then
    .error (.invalidConfiguration "worker concurrency must be positive")
  else if c.visibilityTimeout.isZero then
    .error (.invalidConfiguration "visibility_timeout must be positive")
  else if c.shutdownTimeout.isZero then
    .error (.invalidConfiguration "shutdown_timeout must be positive")
  else
    match c.retry.validate with
    | .error e => .error e
    | .ok () => validateQueues [] c.queues

def queueNames (c : RuntimeConfig) : List String := c.queues.map (·.name.asStr)

def capacity (c : RuntimeConfig) (queue : String) : Option Nat :=
  (HashMap.ofList (c.queues.map (fun q => (q.name.asStr, q.capacity)))).get queue

theorem validateQueues_nodup {seen : List String} {qs : List QueueConfig}
    (h : validateQueues seen qs = .ok ()) :
    (qs.map (·.name.asStr)).Nodup ∧ ∀ q ∈ qs, q.name.asStr ∉ seen := by
  induction qs generalizing seen with
  | nil => simp
  | cons q qs ih =>
    simp only [validateQueues] at h
    split at h
    · cases h
    split at h
    · cases h
    rename_i _ hseen
    obtain ⟨hnodup, hfresh⟩ := ih h
    refine ⟨?_, ?_⟩
    · rw [List.map_cons, List.nodup_cons]
      refine ⟨?_, hnodup⟩
      intro hmem
      obtain ⟨q', hq', heq⟩ := List.mem_map.mp hmem
      exact hfresh q' hq' (by simp [heq])
    · intro q' hq'
      rcases List.mem_cons.mp hq' with rfl | hq'
      · exact hseen
      · exact fun hs => hfresh q' hq' (List.mem_cons_of_mem _ hs)

theorem validate_queues {c : RuntimeConfig} (h : c.validate = .ok ()) :
    validateQueues [] c.queues = .ok () := by
  unfold validate at h
  repeat' split at h
  all_goals first | cases h | exact h

theorem queueNames_nodup {c : RuntimeConfig} (h : c.validate = .ok ()) :
    c.queueNames.Nodup :=
  (validateQueues_nodup (validate_queues h)).1

end RuntimeConfig

end DurableQueue
