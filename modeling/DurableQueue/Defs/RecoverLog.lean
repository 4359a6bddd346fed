import DurableQueue.Defs.Protocol
import DurableQueue.Defs.Wal.WriterLaws

/-! A recovery of a file that holds a legal log, torn tail or not. -/

namespace DurableQueue

open WriterThread

variable {X : Crates} {config : RuntimeConfig} {env : RecoverEnv} {log : List WalRecord}
  {w : WriterThread} {file torn : List UInt8}

theorem WriterThread.Holds.length_lt (h : Holds X w log torn) : log.length + 1 < 2 ^ 63 := by
  have hsize := h.size_le
  have hframes := length_frames_ge 1 h.encodes
  rw [h.file_eq, logBytes, List.length_append, List.length_append] at hsize
  simp only [maxFileSize, isizeMax, frameOverhead] at hsize hframes
  have := length_headerBytes
  omega

theorem checkedSucc_of_lt {n : UInt64} (h : n.toNat + 1 < 2 ^ 64) :
    checkedSucc n = some (n + 1) := by
  rw [checkedSucc, if_neg (Nat.ne_of_lt h)]

theorem checkedSucc_ofNat {n : Nat} (h : n + 1 < 2 ^ 64) :
    checkedSucc (UInt64.ofNat n) = some (UInt64.ofNat (n + 1)) := by
  rw [checkedSucc_of_lt (by rw [UInt64.toNat_ofNat_of_lt' (Nat.lt_of_succ_lt h)]; exact h)]
  simp

theorem writeReconciliation_holds {recs : List WalRecord} (hrecs : ∀ r ∈ recs, X.Encodes r)
    {file : List UInt8} {seq : UInt64} (h : Holds X ⟨file, seq⟩ log []) :
    (∃ seq' file', writeReconciliation X recs file seq = (.ok seq', file') ∧
        Holds X ⟨file', seq'⟩ (log ++ recs) []) ∨
      ∃ n seq' file', writeReconciliation X recs file seq =
          (.error (.io "File too large"), file') ∧
        Holds X ⟨file', seq'⟩ (log ++ recs.take n) [] := by
  induction recs generalizing file seq log with
  | nil => exact Or.inl ⟨seq, file, rfl, by simpa using h⟩
  | cons r recs ih =>
    have hr := hrecs r (by simp)
    have henc : WalFrame.encode X ⟨seq, r⟩ = .ok (frame X seq r) :=
      (encode_eq_ok_iff ⟨seq, r⟩ _).mpr ⟨hr, rfl⟩
    simp only [writeReconciliation, henc]
    split
    · exact Or.inr ⟨0, seq, file, rfl, by simpa using h⟩
    · rename_i hroom
      have hsnoc := h.snoc hr (Nat.not_lt.mp hroom)
      have hsucc : checkedSucc seq = some (seq + 1) := by
        have hlt := h.length_lt
        have hseq : seq = UInt64.ofNat (log.length + 1) := h.nextSeq_eq
        refine checkedSucc_of_lt ?_
        rw [hseq, UInt64.toNat_ofNat_of_lt' (show log.length + 1 < 2 ^ 64 by omega)]
        omega
      rw [hsucc]
      rcases ih (fun r' hr' => hrecs r' (by simp [hr'])) hsnoc with
        ⟨seq', file', hw, hh⟩ | ⟨n, seq', file', hw, hh⟩
      · exact Or.inl ⟨seq', file', hw, by simpa using hh⟩
      · exact Or.inr ⟨n + 1, seq', file', hw, by simpa using hh⟩

theorem Reads.logOf_eq (h : Reads X file log) (hcut : Cut torn) :
    logOf X (some (file ++ torn)) = log := by
  have hscan := h.scan hcut
  cases hfile : file ++ torn with
  | nil => exact absurd (List.append_eq_nil_iff.mp hfile).1 h.ne_nil
  | cons b bs =>
    rw [hfile] at hscan
    simp only [logOf, hscan]
    rfl

theorem Reads.repaired {scan : ScanResult} (h : Reads X file log)
    (hoffset : scan.lastValidOffset = file.length - headerSize)
    (htail : scan.hadTruncatedTail = decide (torn ≠ [])) :
    (if scan.hadTruncatedTail then repairTruncatedTail (file ++ torn) scan.lastValidOffset
      else file ++ torn) = file := by
  rw [hoffset, htail]
  split
  · exact h.repair torn
  · rename_i htorn
    have hnil : torn = [] := by simpa using htorn
    rw [hnil, List.append_nil]

theorem WriterThread.Holds.repaired (hX : X.Lawful) (h : Holds X w log torn) {scan : ScanResult}
    (hscan : scan = (scanned X log).finish (decide (torn ≠ []))) :
    (if scan.hadTruncatedTail then repairTruncatedTail w.file scan.lastValidOffset else w.file) =
      logBytes X log := by
  subst hscan
  rw [h.file_eq]
  exact (h.reads hX).repaired (length_logBytes log).symm rfl

theorem logOf_holds (hX : X.Lawful) (h : Holds X w log torn) : logOf X (some w.file) = log := by
  rw [h.file_eq]
  exact (h.reads hX).logOf_eq h.torn.isCut

theorem recover_scanned (env : RecoverEnv) (config : RuntimeConfig)
    (hfile : file ≠ []) {scan : ScanResult}
    (hscan : scanWal X file = .ok scan) {seq epoch : UInt64}
    (hseq : checkedSucc scan.lastSequence = some seq)
    (hepoch : checkedSucc
      (scan.records.foldl ReplayState.replayRecord .new).tracker.maxLeaseEpoch = some epoch) :
    recover X env config (some file) =
      match writeReconciliation X (reconciliationOf env scan.records)
        (if scan.hadTruncatedTail then repairTruncatedTail file scan.lastValidOffset else file)
        seq with
      | (.error e, file') => (.error e, file')
      | (.ok seq', file') => (finishRecovery env config
          (scan.records.foldl ReplayState.replayRecord .new) (reconciliationOf env scan.records)
          seq' epoch, file') := by
  cases file with
  | nil => exact absurd rfl hfile
  | cons b bs =>
    simp only [recover, hscan, hseq, hepoch]
    rfl

theorem Reads.recover_eq (h : Reads X file log) (hcut : Cut torn)
    (hnodup : (submittedIds log).Nodup) (hepoch : (maxEpoch log).toNat + 1 < 2 ^ 64)
    (env : RecoverEnv) (config : RuntimeConfig) :
    recover X env config (some (file ++ torn)) =
      match writeReconciliation X (reconciliationOf env log) file
        (UInt64.ofNat (log.length + 1)) with
      | (.error e, file') => (.error e, file')
      | (.ok seq, file') => (finishRecovery env config (log.foldl ReplayState.replayRecord .new)
          (reconciliationOf env log) seq (maxEpoch log + 1), file') := by
  have hsucc : checkedSucc (UInt64.ofNat log.length) = some (UInt64.ofNat (log.length + 1)) :=
    checkedSucc_ofNat h.length_lt
  have hepoch' : checkedSucc (log.foldl ReplayState.replayRecord .new).tracker.maxLeaseEpoch =
      some (maxEpoch log + 1) := by
    rw [(tracked_replay hnodup).maxLeaseEpoch]
    exact checkedSucc_of_lt hepoch
  have hne : file ++ torn ≠ [] := List.append_ne_nil_of_left_ne_nil h.ne_nil torn
  have heq := recover_scanned env config hne (h.scan hcut) hsucc hepoch'
  rw [h.repaired rfl rfl] at heq
  exact heq

/-- A recovery of a file that holds a legal log succeeds and leaves a file that holds the
log with its reconciliation; the one thing that can go wrong is that the file has no room. -/
theorem recover_holds (hX : X.Lawful) (hC : X.Compact) (hlegal : Legal config log)
    (h : Holds X w log torn) (env : RecoverEnv) :
    (∃ rec file', recover X env config (some w.file) = (.ok rec, file') ∧
        Recovers env config log rec ∧
        Holds X ⟨file', rec.nextSequence⟩ (log ++ reconciliationOf env log) []) ∨
      ∃ n seq' file', recover X env config (some w.file) =
          (.error (.io "File too large"), file') ∧
        Holds X ⟨file', seq'⟩ (log ++ (reconciliationOf env log).take n) [] := by
  have hepoch : (maxEpoch log).toNat + 1 < 2 ^ 64 := by
    have hlt := h.length_lt
    have hmax := hlegal.maxEpoch_le
    omega
  have heq := (h.reads hX).recover_eq h.torn.isCut hlegal.nodup hepoch env config
  rw [← h.file_eq] at heq
  have hrepaired : Holds X ⟨logBytes X log, UInt64.ofNat (log.length + 1)⟩ log [] := by
    refine ⟨by simp, rfl, h.encodes, Torn.nil, ?_⟩
    have hsize := h.size_le
    rw [h.file_eq, List.length_append] at hsize
    exact (Nat.le_add_right _ _).trans hsize
  have hencodes : ∀ r ∈ reconciliationOf env log, X.Encodes r := fun r hr =>
    hC r (isSubmitted_reconciles (reconciliationOf_reconciles env hlegal.nodup r hr))
  have hmaxSucc : (maxEpoch log + 1).toNat = (maxEpoch log).toNat + 1 :=
    checkedSucc_some (checkedSucc_of_lt hepoch)
  rcases writeReconciliation_holds hencodes hrepaired with
    ⟨seq', file', hw, hh⟩ | ⟨n, seq', file', hw, hh⟩
  · left
    rw [hw] at heq
    obtain ⟨rec, hfinish, _⟩ := finishRecovery_of_fits hlegal.nodup seq' (maxEpoch log + 1)
      (hlegal.recovered_all env).fits
    obtain ⟨hrec, hnextSeq⟩ := finishRecovery_recovers hlegal.nodup hmaxSucc hfinish
    simp only [hfinish] at heq
    exact ⟨rec, file', heq, hrec, by rw [hnextSeq]; exact hh⟩
  · right
    rw [hw] at heq
    exact ⟨n, seq', file', heq, hh⟩

end DurableQueue
