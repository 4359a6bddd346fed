import DurableQueue.Defs.Restart

/-! A start that is rejected because the recovered jobs do not fit the configuration. -/

namespace DurableQueue

variable {X : Crates} {config : RuntimeConfig} {env : RecoverEnv}

theorem reconciliationOf_eq_nil_iff (env : RecoverEnv) (log : List WalRecord) :
    reconciliationOf env log = [] ↔ Settled log := by
  constructor
  · intro hnil id job hget hrun
    have hmem : id ∈ (reconciliationOf env log).map WalRecord.jobId :=
      mem_reconciliationOf.mpr ⟨job, hget, hrun⟩
    rw [hnil] at hmem
    cases hmem
  · exact fun h => h.reconciliationOf env

/-- A rejected start has written its reconciliation: the log is what it was before iff the
log left no job running. -/
theorem rejected_start_unchanged_iff (hX : X.Lawful) {walFile : Option (List UInt8)}
    {file' : List UInt8} {e : WalError} (h : recover X env config walFile = (.error e, file'))
    (he : e.rejects = true) :
    ∃ file before after, walFile = some file ∧ scanWal X file = .ok before ∧
      scanWal X file' = .ok after ∧
      after.records = before.records ++ reconciliationOf env before.records ∧
      (after.records = before.records ↔ Settled before.records) := by
  match walFile with
  | none | some [] => cases h
  | some (b :: bs) =>
    rcases recover_cases hX (by simp) h with ⟨e', he', hrejects⟩ |
      ⟨whole, torn, log, seq, epoch, hsplit, hreads, hcut, -, hreads', -, -⟩
    · cases he'
      rw [he] at hrejects
      cases hrejects
    · have hscan := hreads.scan hcut
      have hscan' := hreads'.scan .nil
      rw [← hsplit] at hscan
      rw [List.append_nil] at hscan'
      refine ⟨_, _, _, rfl, hscan, hscan', rfl, ?_⟩
      exact List.append_right_eq_self.trans (reconciliationOf_eq_nil_iff env log)

def otherConfig : RuntimeConfig := { mailConfig with queues := [⟨⟨"other"⟩, 1⟩] }

def failure {α : Type} : WalResult α × List UInt8 → Option (WalError × List UInt8)
  | (.error e, file) => some (e, file)
  | (.ok _, _) => none

theorem eq_of_failure {α : Type} {p : WalResult α × List UInt8} {e : WalError}
    {file : List UInt8} (h : failure p = some (e, file)) : p = (.error e, file) := by
  obtain ⟨res, file'⟩ := p
  cases res with
  | error e' =>
    cases h
    rfl
  | ok a => cases h

def queuedLog : List WalRecord := [.jobSubmitted ⟨1⟩ ⟨"mail"⟩ ⟨[1, 2], 3⟩ ⟨0⟩]

def runningLog : List WalRecord := queuedLog ++ [.jobLeased ⟨1⟩ ⟨1⟩ 1 ⟨0⟩]

/-- A queued job of a queue that is not configured: the start is rejected, and the log stays
as it is. -/
theorem rejected_start_unchanged_queued : ∃ after,
    recover Postcard.crates mailBoot.recovery otherConfig (some (logBytes Postcard.crates queuedLog)) =
      (.error (.recoveryQueueNotFound "mail"), logBytes Postcard.crates queuedLog) ∧
    scanWal Postcard.crates (logBytes Postcard.crates queuedLog) = .ok after ∧
    after.records = queuedLog := by
  have hrecover := eq_of_failure (show failure (recover Postcard.crates mailBoot.recovery otherConfig
    (some (logBytes Postcard.crates queuedLog))) = some (.recoveryQueueNotFound "mail",
      logBytes Postcard.crates queuedLog) by decide +kernel)
  obtain ⟨file, before, after, hfile, hbefore, hafter, -, hiff⟩ :=
    rejected_start_unchanged_iff Postcard.crates_lawful hrecover rfl
  rw [← Option.some.inj hfile] at hbefore
  have hrecords : (scanWal Postcard.crates (logBytes Postcard.crates queuedLog)).map (·.records) =
      .ok queuedLog := by
    decide +kernel
  rw [hbefore] at hrecords
  have hlog : before.records = queuedLog := Except.ok.inj hrecords
  have hsettled : Settled queuedLog := by
    intro id job hget
    rw [replayed, queuedLog, MemoryStore.replay, List.foldl_cons, List.foldl_nil,
      MemoryStore.applyRecordForRecovery, HashMap.get_insert] at hget
    split at hget <;> cases hget
    simp [JobRecord.new]
  exact ⟨after, hrecover, hafter, (hiff.mpr (hlog ▸ hsettled)).trans hlog⟩

/-- With the job running at the crash, the rejected start leaves a record more. -/
theorem rejected_start_writes :
    ∃ file', recover Postcard.crates mailBoot.recovery otherConfig
        (some (logBytes Postcard.crates runningLog)) =
          (.error (.recoveryQueueNotFound "mail"), file') ∧
      (scanWal Postcard.crates (logBytes Postcard.crates runningLog)).map (·.records) =
        .ok runningLog ∧
      (scanWal Postcard.crates file').map (·.records) =
        .ok (runningLog ++ [.jobRetryScheduled ⟨1⟩ ⟨1⟩ 1 ⟨0⟩]) := by
  refine ⟨logBytes Postcard.crates (runningLog ++ [.jobRetryScheduled ⟨1⟩ ⟨1⟩ 1 ⟨0⟩]),
    eq_of_failure ?_, ?_, ?_⟩ <;> decide +kernel

end DurableQueue
