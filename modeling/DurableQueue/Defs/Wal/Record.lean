import DurableQueue.Defs.Types

/-! The records of the write-ahead log. -/

namespace DurableQueue

inductive WalRecord
  | jobSubmitted (id : JobId) (queue : QueueName) (spec : JobSpec) (createdAt : UnixMillis)
  | jobLeased (id : JobId) (leaseId : LeaseId) (attempt : UInt32) (leasedAt : UnixMillis)
  | jobRetryScheduled (id : JobId) (leaseId : LeaseId) (attempt : UInt32)
      (availableAt : UnixMillis)
  | jobCompleted (id : JobId) (leaseId : LeaseId) (completedAt : UnixMillis)
  | jobDead (id : JobId) (leaseId : LeaseId) (deadAt : UnixMillis)
  | jobCancelled (id : JobId) (cancelledAt : UnixMillis)
  deriving DecidableEq

namespace WalRecord

def jobId : WalRecord → JobId
  | .jobSubmitted id .. => id
  | .jobLeased id .. => id
  | .jobRetryScheduled id .. => id
  | .jobCompleted id .. => id
  | .jobDead id .. => id
  | .jobCancelled id .. => id

def recordType : WalRecord → UInt8
  | .jobSubmitted .. => 1
  | .jobLeased .. => 2
  | .jobRetryScheduled .. => 3
  | .jobCompleted .. => 4
  | .jobDead .. => 5
  | .jobCancelled .. => 6

def isSubmitted : WalRecord → Bool
  | .jobSubmitted .. => true
  | _ => false

def isCompleted : WalRecord → Bool
  | .jobCompleted .. => true
  | _ => false

def isDead : WalRecord → Bool
  | .jobDead .. => true
  | _ => false

def isCancelled : WalRecord → Bool
  | .jobCancelled .. => true
  | _ => false

def isRetryScheduled : WalRecord → Bool
  | .jobRetryScheduled .. => true
  | _ => false

def leasedEpoch : WalRecord → Option UInt64
  | .jobLeased _ leaseId _ _ => some leaseId.epoch
  | _ => none

def leaseFor (id : JobId) : WalRecord → Option LeaseId
  | .jobLeased id' leaseId _ _ => if id' = id then some leaseId else none
  | _ => none

def retryFor (id : JobId) : WalRecord → Option UnixMillis
  | .jobRetryScheduled id' _ _ availableAt => if id' = id then some availableAt else none
  | _ => none

def outcomeLease : WalRecord → Option LeaseId
  | .jobRetryScheduled _ leaseId _ _ => some leaseId
  | .jobCompleted _ leaseId _ => some leaseId
  | .jobDead _ leaseId _ => some leaseId
  | _ => none

theorem leaseFor_other {r : WalRecord} {id : JobId} (h : id ≠ r.jobId) : r.leaseFor id = none := by
  cases r <;> simp_all [leaseFor, jobId, eq_comm]

theorem retryFor_other {r : WalRecord} {id : JobId} (h : id ≠ r.jobId) : r.retryFor id = none := by
  cases r <;> simp_all [retryFor, jobId, eq_comm]

end WalRecord

def submittedIds : List WalRecord → List JobId
  | [] => []
  | .jobSubmitted id _ _ _ :: log => id :: submittedIds log
  | _ :: log => submittedIds log

def maxEpoch (log : List WalRecord) : UInt64 :=
  log.foldl (fun e r => max e (r.leasedEpoch.getD 0)) 0

def lastLease (log : List WalRecord) (id : JobId) : Option LeaseId :=
  log.foldl (fun last r => (r.leaseFor id).or last) none

@[simp] theorem lastLease_nil (id : JobId) : lastLease [] id = none := rfl

@[simp] theorem lastLease_snoc (log : List WalRecord) (r : WalRecord) (id : JobId) :
    lastLease (log ++ [r]) id = (r.leaseFor id).or (lastLease log id) := by
  simp [lastLease]

def lastRetry (log : List WalRecord) (id : JobId) : Option UnixMillis :=
  log.foldl (fun last r => (r.retryFor id).or last) none

@[simp] theorem lastRetry_nil (id : JobId) : lastRetry [] id = none := rfl

@[simp] theorem lastRetry_snoc (log : List WalRecord) (r : WalRecord) (id : JobId) :
    lastRetry (log ++ [r]) id = (r.retryFor id).or (lastRetry log id) := by
  simp [lastRetry]

theorem submittedIds_append (log log' : List WalRecord) :
    submittedIds (log ++ log') = submittedIds log ++ submittedIds log' := by
  induction log with
  | nil => rfl
  | cons r log ih => cases r <;> simp [submittedIds, ih]

theorem submittedIds_snoc (log : List WalRecord) (r : WalRecord) :
    submittedIds (log ++ [r]) = submittedIds log ++ if r.isSubmitted then [r.jobId] else [] := by
  rw [submittedIds_append]
  cases r <;> rfl

theorem toNat_max_epoch (a b : UInt64) : (max a b).toNat = max a.toNat b.toNat := by
  change (if a ≤ b then b else a).toNat = _
  split
  · rename_i h
    exact (max_eq_right (UInt64.le_iff_toNat_le.mp h)).symm
  · rename_i h
    rw [UInt64.le_iff_toNat_le] at h
    exact (max_eq_left (by omega)).symm

theorem max_zero_epoch (a : UInt64) : max a 0 = a := by
  apply UInt64.toNat_inj.mp
  rw [toNat_max_epoch]
  simp

@[simp] theorem maxEpoch_append_singleton (log : List WalRecord) (r : WalRecord) :
    maxEpoch (log ++ [r]) = max (maxEpoch log) (r.leasedEpoch.getD 0) := by
  simp [maxEpoch]

end DurableQueue
