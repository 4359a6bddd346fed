import DurableQueue.Defs.RecoverLog
import DurableQueue.Defs.RuntimeLaws
import DurableQueue.Defs.Wal.Reading

/-! The log over process lifetimes: what one process leaves behind the next one can read,
whoever wrote the file first. -/

namespace DurableQueue

variable {X : Crates} {config : RuntimeConfig} {env : RecoverEnv} {log recs : List WalRecord}
  {file file' torn : List UInt8}

/-! ## Recovery -/

theorem writeReconciliation_reads (hX : X.Lawful) {seq : UInt64} (h : Reads X file log)
    (hw : writeReconciliation X recs file (UInt64.ofNat (log.length + 1)) = (.ok seq, file')) :
    file' = file ++ frames X (log.length + 1) recs ∧ Reads X file' (log ++ recs) ∧
      seq = UInt64.ofNat ((log ++ recs).length + 1) := by
  induction recs generalizing file log with
  | nil =>
    cases hw
    simpa [frames] using h
  | cons r recs ih =>
    unfold writeReconciliation at hw
    cases henc : WalFrame.encode X ⟨UInt64.ofNat (log.length + 1), r⟩ with
    | error e =>
      rw [henc] at hw
      cases hw
    | ok bytes =>
      obtain ⟨hr, hbytes⟩ := (encode_eq_ok_iff _ _).mp henc
      simp only at hr hbytes
      subst hbytes
      rw [henc] at hw
      simp only at hw
      split at hw
      · cases hw
      rename_i hroom
      split at hw
      · cases hw
      rename_i seq' hsucc
      have hsnoc := h.snoc (isFrame_frame hX _ hr) (h.length_lt_of_room (Nat.not_lt.mp hroom))
      have hseq : seq' = UInt64.ofNat ((log ++ [r]).length + 1) := by
        unfold checkedSucc at hsucc
        split at hsucc <;> cases hsucc
        simp
      subst hseq
      obtain ⟨hfile, hreads, hnext⟩ := ih hsnoc hw
      refine ⟨?_, by simpa using hreads, by simpa using hnext⟩
      rw [hfile, frames, List.append_assoc, List.length_append, List.length_singleton]

def WalError.rejects : WalError → Bool
  | .recoveryQueueNotFound _ | .recoveryCapacityExceeded .. => true
  | _ => false

theorem scanLoop_error {fuel : Nat} {buf : List UInt8} {s : ScanState} {e : WalError}
    (h : scanLoop X fuel buf s = .error e) : e.rejects = false := by
  have hdecode : ∀ {buf e}, WalFrame.decode X buf = .error e → e.rejects = false := by
    intro buf e h
    unfold WalFrame.decode at h
    simp only at h
    repeat' split at h
    all_goals cases h
    all_goals rfl
  have hpush : ∀ {s : ScanState} {f n e}, s.push f n = .error e → e.rejects = false := by
    intro s f n e h
    unfold ScanState.push at h
    repeat' split at h
    all_goals cases h
    all_goals rfl
  induction fuel generalizing buf s with
  | zero => cases buf <;> cases h
  | succ fuel ih =>
    by_cases hnil : buf = []
    · subst hnil
      cases h
    rw [scanLoop_succ fuel hnil] at h
    split at h
    · cases h
    split at h
    · cases h
      rfl
    split at h
    · cases h
    split at h
    · split at h
      · exact ih h
      · rename_i hp
        cases h
        exact hpush hp
    · cases h
    · rename_i hd
      cases h
      exact hdecode hd

theorem scanWal_error {e : WalError} (h : scanWal X file = .error e) : e.rejects = false := by
  unfold scanWal at h
  split at h
  · cases h
  split at h
  · cases h
    rfl
  split at h
  · rename_i hheader
    cases h
    unfold WalHeader.decode at hheader
    simp only at hheader
    repeat' split at hheader
    all_goals cases hheader
    all_goals rfl
  · exact scanLoop_error h

theorem writeReconciliation_error {seq : UInt64} {e : WalError}
    (h : writeReconciliation X recs file seq = (.error e, file')) : e.rejects = false := by
  induction recs generalizing file seq with
  | nil => cases h
  | cons r recs ih =>
    unfold writeReconciliation at h
    split at h
    · rename_i hencode
      cases h
      unfold WalFrame.encode at hencode
      repeat' split at hencode
      all_goals cases hencode
      all_goals rfl
    split at h
    · cases h
      rfl
    split at h
    · cases h
      rfl
    · exact ih h

theorem recover_cases {res : WalResult RecoveredState} (hX : X.Lawful) (hfile : file ≠ [])
    (h : recover X env config (some file) = (res, file')) :
    (∃ e, res = .error e ∧ e.rejects = false) ∨
      ∃ whole torn log seq epoch, file = whole ++ torn ∧ Reads X whole log ∧ Cut torn ∧
        file' = whole ++ frames X (log.length + 1) (reconciliationOf env log) ∧
        Reads X file' (log ++ reconciliationOf env log) ∧
        seq = UInt64.ofNat ((log ++ reconciliationOf env log).length + 1) ∧
        res = finishRecovery env config (log.foldl ReplayState.replayRecord .new)
          (reconciliationOf env log) seq epoch := by
  cases file with
  | nil => exact absurd rfl hfile
  | cons b bs =>
    unfold recover at h
    simp only at h
    cases hscan : scanWal X (b :: bs) with
    | error e =>
      rw [hscan] at h
      cases h
      exact Or.inl ⟨e, rfl, scanWal_error hscan⟩
    | ok scan =>
      obtain ⟨whole, torn, hsplit, hreads, hcut, hres⟩ := scanWal_ok hfile hscan
      have hrepaired := hreads.repaired (congrArg ScanResult.lastValidOffset hres)
        (congrArg ScanResult.hadTruncatedTail hres)
      have hlast : scan.lastSequence = UInt64.ofNat scan.records.length :=
        congrArg ScanResult.lastSequence hres
      rw [← hsplit] at hrepaired
      rw [hscan] at h
      simp only [hrepaired, hlast] at h
      split at h
      · cases h
        exact Or.inl ⟨_, rfl, rfl⟩
      rename_i seq hseq
      have hnext : seq = UInt64.ofNat (scan.records.length + 1) := by
        unfold checkedSucc at hseq
        split at hseq <;> cases hseq
        simp
      subst hnext
      split at h
      · cases h
        exact Or.inl ⟨_, rfl, rfl⟩
      split at h
      · rename_i hw
        cases h
        exact Or.inl ⟨_, rfl, writeReconciliation_error hw⟩
      rename_i seq' file'' hw
      obtain ⟨hfile', hreads', hseq'⟩ := writeReconciliation_reads hX hreads hw
      obtain ⟨rfl, rfl⟩ := Prod.mk.inj h
      exact Or.inr ⟨whole, torn, scan.records, seq', _, hsplit, hreads, hcut, hfile', hreads',
        hseq', rfl⟩

theorem recover_ok {rec : RecoveredState} (hX : X.Lawful) (hfile : file ≠ [])
    (h : recover X env config (some file) = (.ok rec, file')) :
    ∃ whole torn log, file = whole ++ torn ∧ Reads X whole log ∧ Cut torn ∧
      file' = whole ++ frames X (log.length + 1) (reconciliationOf env log) ∧
      Reads X file' (log ++ reconciliationOf env log) ∧
      rec.nextSequence = UInt64.ofNat ((log ++ reconciliationOf env log).length + 1) := by
  rcases recover_cases hX hfile h with ⟨e, he, -⟩ |
    ⟨whole, torn, log, seq, epoch, hsplit, hreads, hcut, hfile', hreads', hseq, hfinish⟩
  · cases he
  refine ⟨whole, torn, log, hsplit, hreads, hcut, hfile', hreads', ?_⟩
  unfold finishRecovery at hfinish
  simp only at hfinish
  split at hfinish <;> cases hfinish
  exact hseq

/-! ## Appends -/

/-- A writer makes some appends, all successfully; each record comes with the sequence
number that its append returned. -/
inductive Appends (X : Crates) (w : WriterThread) : List (WalRecord × UInt64) → WriterThread → Prop
  | nil : Appends X w [] w
  | snoc {appended : List (WalRecord × UInt64)} {w' w'' : WriterThread} {r : WalRecord}
      {fault : Fault} {seq : UInt64} (h : Appends X w appended w')
      (hw : w'.processWrite X r fault = (.ok seq, w'')) : Appends X w (appended ++ [(r, seq)]) w''

/-- Records added to a log of `n` records: each of those that come with a sequence number
stands at that position, counted from 1. -/
def Positions (n : Nat) (added : List (WalRecord × Option UInt64)) : Prop :=
  ∀ i r seq, added[i]? = some (r, some seq) → seq.toNat = n + i + 1

theorem Positions.append {n : Nat} {added added' : List (WalRecord × Option UInt64)}
    (h : Positions n added) (h' : Positions (n + added.length) added') :
    Positions n (added ++ added') := by
  intro i r seq hi
  rw [List.getElem?_append] at hi
  split at hi
  · exact h i r seq hi
  · have hpos := h' _ r seq hi
    omega

theorem positions_none (n : Nat) (recs : List WalRecord) :
    Positions n (recs.map (·, none)) := by
  intro i r seq hi
  rw [List.getElem?_map] at hi
  cases hr : recs[i]? <;> rw [hr] at hi <;> cases hi

theorem positions_singleton {n : Nat} {r : WalRecord} {seq : UInt64} (h : seq.toNat = n + 1) :
    Positions n [(r, some seq)] := by
  intro i r' seq' hi
  cases i with
  | zero =>
    cases hi
    exact h
  | succ i => cases hi

theorem Appends.reads (hX : X.Lawful) {w w' : WriterThread} {appended : List (WalRecord × UInt64)}
    (h : Appends X w appended w') (hreads : Reads X w.file log)
    (hseq : w.nextSeq = UInt64.ofNat (log.length + 1)) :
    Reads X w'.file (log ++ appended.map Prod.fst) ∧
      w'.nextSeq = UInt64.ofNat ((log ++ appended.map Prod.fst).length + 1) ∧
      Positions log.length (appended.map fun p => (p.1, some p.2)) := by
  induction h with
  | nil => exact ⟨by simpa using hreads, by simpa using hseq, positions_none _ []⟩
  | @snoc appended w' w'' r fault seq h hw ih =>
    obtain ⟨hreads', hseq', hpositions⟩ := ih
    obtain ⟨hr, hroom, rfl, rfl⟩ := WriterThread.processWrite_ok hw
    rw [List.map_append, List.map_append, ← List.append_assoc]
    refine ⟨?_, ?_, hpositions.append (positions_singleton ?_)⟩
    · rw [hseq'] at hroom ⊢
      exact hreads'.snoc (isFrame_frame hX _ hr) (hreads'.length_lt_of_room hroom)
    · rw [hseq']
      simp [UInt64.add_assoc]
    · rw [hseq', UInt64.toNat_ofNat_of_lt' hreads'.length_lt, List.length_append, List.length_map,
        List.length_map]

/-! ## Lifetimes -/

/-- The file goes through process lifetimes, each a recovery and then some appends that all
succeed.  The records that they add are listed in order, with the sequence numbers that the
appends returned; reconciliation records have none. -/
inductive Lifetimes (X : Crates) (config : RuntimeConfig) (file : List UInt8) :
    List UInt8 → List (WalRecord × Option UInt64) → Prop
  | first {env : RecoverEnv} {rec : RecoveredState} {file' : List UInt8} {w : WriterThread}
      {appended : List (WalRecord × UInt64)}
      (hrec : recover X env config (some file) = (.ok rec, file'))
      (happends : Appends X ⟨file', rec.nextSequence⟩ appended w) :
      Lifetimes X config file w.file
        ((reconciliationOf env (logOf X (some file))).map (·, none) ++
          appended.map fun p => (p.1, some p.2))
  | next {env : RecoverEnv} {rec : RecoveredState} {file₁ file' : List UInt8} {w : WriterThread}
      {added : List (WalRecord × Option UInt64)} {appended : List (WalRecord × UInt64)}
      (h : Lifetimes X config file file₁ added)
      (hrec : recover X env config (some file₁) = (.ok rec, file'))
      (happends : Appends X ⟨file', rec.nextSequence⟩ appended w) :
      Lifetimes X config file w.file
        (added ++ ((reconciliationOf env (logOf X (some file₁))).map (·, none) ++
          appended.map fun p => (p.1, some p.2)))

theorem logOf_eq_records {scan : ScanResult} (h : scanWal X file = .ok scan) :
    logOf X (some file) = scan.records := by
  cases file with
  | nil =>
    cases h
    rfl
  | cons b bs => simp only [logOf, h]

theorem recover_reads {rec : RecoveredState} (hX : X.Lawful)
    (h : recover X env config (some file) = (.ok rec, file')) :
    Reads X file' (logOf X (some file) ++ reconciliationOf env (logOf X (some file))) ∧
      rec.nextSequence = UInt64.ofNat ((logOf X (some file) ++
        reconciliationOf env (logOf X (some file))).length + 1) := by
  by_cases hfile : file = []
  · subst hfile
    cases h
    exact ⟨reads_headerBytes, rfl⟩
  · obtain ⟨whole, torn, log, rfl, hreads, hcut, _, hreads', hseq⟩ := recover_ok hX hfile h
    rw [hreads.logOf_eq hcut]
    exact ⟨hreads', hseq⟩

theorem lifetime_reads {rec : RecoveredState} (hX : X.Lawful) {w : WriterThread}
    {appended : List (WalRecord × UInt64)}
    (hrec : recover X env config (some file) = (.ok rec, file'))
    (happends : Appends X ⟨file', rec.nextSequence⟩ appended w)
    {added : List (WalRecord × Option UInt64)}
    (hadded : added = (reconciliationOf env (logOf X (some file))).map (·, none) ++
      appended.map fun p => (p.1, some p.2)) :
    Reads X w.file (logOf X (some file) ++ added.map Prod.fst) ∧
      Positions (logOf X (some file)).length added := by
  subst hadded
  obtain ⟨hreads, hseq⟩ := recover_reads hX hrec
  obtain ⟨hreads', _, hpositions⟩ := happends.reads hX hreads hseq
  refine ⟨?_, (positions_none _ _).append ?_⟩
  · simpa [Function.comp_def] using hreads'
  · rw [List.length_map, ← List.length_append]
    exact hpositions

theorem Lifetimes.reads (hX : X.Lawful) {added : List (WalRecord × Option UInt64)}
    (h : Lifetimes X config file file' added) :
    Reads X file' (logOf X (some file) ++ added.map Prod.fst) ∧
      Positions (logOf X (some file)).length added := by
  induction h with
  | first hrec happends => exact lifetime_reads hX hrec happends rfl
  | next h hrec happends ih =>
    obtain ⟨hreads, hpositions⟩ := ih
    obtain ⟨hreads', hpositions'⟩ := lifetime_reads hX hrec happends rfl
    have hlog := hreads.logOf_eq .nil
    rw [List.append_nil] at hlog
    rw [hlog, List.length_append, List.length_map] at hpositions'
    rw [hlog] at hreads' ⊢
    rw [List.append_assoc, ← List.map_append] at hreads'
    exact ⟨hreads', hpositions.append hpositions'⟩

/-- Any file that the scanner accepts stays readable over process lifetimes.  Afterwards it
scans without a truncated tail to the records it had, followed by the reconciliation records
and the appended ones in order; and each append returned the position of its record. -/
theorem log_continuity (hX : X.Lawful) {scan : ScanResult} (hscan : scanWal X file = .ok scan)
    {added : List (WalRecord × Option UInt64)} (h : Lifetimes X config file file' added) :
    ∃ scan', scanWal X file' = .ok scan' ∧ scan'.hadTruncatedTail = false ∧
      scan'.records = scan.records ++ added.map Prod.fst ∧
      Positions scan.records.length added := by
  obtain ⟨hreads, hpositions⟩ := h.reads hX
  rw [logOf_eq_records hscan] at hreads hpositions
  have hscan' := hreads.scan .nil
  rw [List.append_nil] at hscan'
  exact ⟨_, hscan', rfl, rfl, hpositions⟩

def tornFile : List UInt8 :=
  logBytes Postcard.crates
    [.jobSubmitted ⟨1⟩ ⟨"mail"⟩ ⟨[1, 2], 3⟩ ⟨0⟩, .jobLeased ⟨1⟩ ⟨1⟩ 1 ⟨0⟩] ++ [1, 2]

def tornWriter : WriterThread :=
  match recover Postcard.crates mailBoot.recovery mailConfig (some tornFile) with
  | (.ok rec, file) => ⟨file, rec.nextSequence⟩
  | (.error _, file) => ⟨file, 0⟩

theorem tornWriter_recovers : ∃ rec,
    recover Postcard.crates mailBoot.recovery mailConfig (some tornFile) =
      (.ok rec, tornWriter.file) ∧ tornWriter.nextSeq = rec.nextSequence := by
  have hok : (recover Postcard.crates mailBoot.recovery mailConfig (some tornFile)).1.isOk := by
    decide +kernel
  unfold tornWriter
  split
  · rename_i rec file heq
    exact ⟨rec, heq, rfl⟩
  · rename_i heq
    rw [heq] at hok
    cases hok

/-- The recovery drops the torn bytes and appends the retry of the job; the cancellation
that is appended then gets the number 4. -/
theorem log_continuity_torn : ∃ w scan,
    tornWriter.processWrite Postcard.crates (.jobCancelled ⟨1⟩ ⟨0⟩) .none = (.ok 4, w) ∧
      scanWal Postcard.crates w.file = .ok scan ∧ scan.hadTruncatedTail = false ∧
      scan.records = [.jobSubmitted ⟨1⟩ ⟨"mail"⟩ ⟨[1, 2], 3⟩ ⟨0⟩, .jobLeased ⟨1⟩ ⟨1⟩ 1 ⟨0⟩] ++
        [.jobRetryScheduled ⟨1⟩ ⟨1⟩ 1 ⟨0⟩, .jobCancelled ⟨1⟩ ⟨0⟩] := by
  obtain ⟨rec, hrec, hseq⟩ := tornWriter_recovers
  have hscan : scanWal Postcard.crates tornFile = .ok
      { records := [.jobSubmitted ⟨1⟩ ⟨"mail"⟩ ⟨[1, 2], 3⟩ ⟨0⟩, .jobLeased ⟨1⟩ ⟨1⟩ 1 ⟨0⟩]
        lastSequence := 2
        maxLeaseEpoch := 1
        lastValidOffset := 85
        hadTruncatedTail := true } := by
    decide +kernel
  have hfour : (tornWriter.processWrite Postcard.crates (.jobCancelled ⟨1⟩ ⟨0⟩) .none).1 =
      .ok 4 := by
    decide +kernel
  rcases hwrite : tornWriter.processWrite Postcard.crates (.jobCancelled ⟨1⟩ ⟨0⟩) .none with
    ⟨res, w⟩
  rw [hwrite] at hfour
  obtain rfl : res = .ok 4 := hfour
  have happends : Appends Postcard.crates ⟨tornWriter.file, rec.nextSequence⟩
      ([] ++ [(.jobCancelled ⟨1⟩ ⟨0⟩, 4)]) w := by
    rw [← hseq]
    generalize tornWriter = w₀ at hwrite
    exact .snoc .nil hwrite
  obtain ⟨scan, hscan', htail, hrecords, _⟩ :=
    log_continuity Postcard.crates_lawful hscan (.first hrec happends)
  refine ⟨w, scan, rfl, hscan', htail, hrecords.trans ?_⟩
  rw [logOf_eq_records hscan]
  decide +kernel

end DurableQueue
