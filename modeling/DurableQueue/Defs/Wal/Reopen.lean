import DurableQueue.Defs.Continuity

/-! Opening an existing log with `WalWriter::open`, which scans it on its own and leaves a
torn tail where it is. -/

namespace DurableQueue

open Bytes

/-- The loop of `scan_for_next_sequence` over what remains of the buffer.  Every round
consumes a whole frame, so `fuel` rounds are enough for `fuel` bytes. -/
def nextSequenceLoop (X : Crates) : Nat → List UInt8 → UInt64 → WalResult UInt64
  | _, [], maxSeq => .ok maxSeq
  | 0, _ :: _, maxSeq => .ok maxSeq
  | fuel + 1, b :: bs, maxSeq =>
    match WalFrame.decode X (b :: bs) with
    | .ok (f, consumed) => nextSequenceLoop X fuel ((b :: bs).drop consumed) (max maxSeq f.sequence)
    | .error .truncatedFrame => .ok maxSeq
    | .error e => .error e

def scanForNextSequence (X : Crates) (buf : List UInt8) : WalResult UInt64 :=
  if buf.isEmpty then .ok 1
  else
    match nextSequenceLoop X buf.length buf 0 with
    | .error e => .error e
    | .ok maxSeq => .ok (maxSeq + 1)

/-- `open_wal_file` on the content of the log file (`none` when there is none).  The handle
stands at the end of the file afterwards. -/
def openWalFile (X : Crates) (walFile : Option (List UInt8)) : WalResult WriterThread :=
  match walFile with
  | none | some [] => .ok ⟨WalHeader.new.encode, 1⟩
  | some file =>
    if file.length < headerSize then .error .invalidWalHeader
    else
      match WalHeader.decode (file.take headerSize) with
      | .error e => .error e
      | .ok _ =>
        match scanForNextSequence X (file.drop headerSize) with
        | .error e => .error e
        | .ok nextSeq => .ok ⟨file, nextSeq⟩

variable {X : Crates}

/-! ## The scan for the next number -/

theorem Cut.decode_eq {torn : List UInt8} (h : Cut torn) :
    WalFrame.decode X torn = .error .truncatedFrame := by
  unfold WalFrame.decode
  split
  · rfl
  rename_i hlong
  simp only [frameOverhead] at hlong
  obtain ⟨hsmall, hshort⟩ := h.resolve_left (by omega)
  rw [if_neg (Nat.not_lt.mpr hsmall), if_pos hshort]

theorem nextSequenceLoop_succ (fuel : Nat) {buf : List UInt8} (hbuf : buf ≠ []) (maxSeq : UInt64) :
    nextSequenceLoop X (fuel + 1) buf maxSeq =
      match WalFrame.decode X buf with
      | .ok (f, consumed) => nextSequenceLoop X fuel (buf.drop consumed) (max maxSeq f.sequence)
      | .error .truncatedFrame => .ok maxSeq
      | .error e => .error e := by
  cases buf with
  | nil => exact absurd rfl hbuf
  | cons b bs => rfl

theorem nextSequenceLoop_cut {torn : List UInt8} (h : Cut torn) {fuel : Nat}
    (hfuel : torn.length ≤ fuel) (maxSeq : UInt64) :
    nextSequenceLoop X fuel torn maxSeq = .ok maxSeq := by
  by_cases hnil : torn = []
  · subst hnil
    cases fuel <;> rfl
  obtain ⟨fuel, rfl⟩ : ∃ n, fuel = n + 1 := by
    have := List.length_pos_of_ne_nil hnil
    exact ⟨fuel - 1, by omega⟩
  rw [nextSequenceLoop_succ fuel hnil, h.decode_eq]

theorem nextSequenceLoop_isFrame {seq : UInt64} {r : WalRecord} {bytes : List UInt8}
    (h : IsFrame X seq r bytes) (fuel : Nat) (rest : List UInt8) (maxSeq : UInt64) :
    nextSequenceLoop X (fuel + 1) (bytes ++ rest) maxSeq =
      nextSequenceLoop X fuel rest (max maxSeq seq) := by
  rw [nextSequenceLoop_succ fuel (List.append_ne_nil_of_left_ne_nil h.ne_nil rest),
    WalFrame.decode_append h.length.ge, h.decode]
  simp only [List.drop_left]

theorem WholeFrames.nextSequenceLoop {buf : List UInt8} {rs : List WalRecord}
    (h : WholeFrames X buf rs) (fuel : Nat) (rest : List UInt8) :
    nextSequenceLoop X (fuel + rs.length) (buf ++ rest) 0 =
      DurableQueue.nextSequenceLoop X fuel rest (UInt64.ofNat rs.length) := by
  induction h generalizing fuel rest with
  | nil => rfl
  | @snoc buf bytes rs r h hframe hlt ih =>
    have hmax : max (UInt64.ofNat rs.length) (UInt64.ofNat (rs.length + 1)) =
        UInt64.ofNat (rs.length + 1) := by
      apply UInt64.toNat_inj.mp
      rw [toNat_max_epoch, UInt64.toNat_ofNat_of_lt' (show rs.length < 2 ^ 64 by omega),
        UInt64.toNat_ofNat_of_lt' (show rs.length + 1 < 2 ^ 64 by omega)]
      omega
    rw [List.length_append, List.length_singleton, List.append_assoc,
      show fuel + (rs.length + 1) = fuel + 1 + rs.length by omega, ih,
      nextSequenceLoop_isFrame hframe, hmax]

theorem Reads.scanForNextSequence {file torn : List UInt8} {log : List WalRecord}
    (h : Reads X file log) (hcut : Cut torn) :
    scanForNextSequence X ((file ++ torn).drop headerSize) =
      .ok (UInt64.ofNat (log.length + 1)) := by
  have hge := h.frames.length_ge
  simp only [frameOverhead] at hge
  rw [List.drop_append_of_le_length h.long, DurableQueue.scanForNextSequence]
  split
  · rename_i hempty
    have hnil : file.drop headerSize = [] :=
      (List.append_eq_nil_iff.mp (List.isEmpty_iff.mp hempty)).1
    rw [hnil, List.length_nil] at hge
    rw [show log.length = 0 by omega]
    rfl
  · obtain ⟨fuel, hfuel⟩ : ∃ n, (file.drop headerSize ++ torn).length = n + log.length :=
      ⟨(file.drop headerSize ++ torn).length - log.length, by rw [List.length_append]; omega⟩
    rw [hfuel, h.frames.nextSequenceLoop]
    rw [List.length_append] at hfuel
    rw [nextSequenceLoop_cut hcut (by omega)]
    simp

theorem Reads.openWalFile {file torn : List UInt8} {log : List WalRecord}
    (h : Reads X file log) (hcut : Cut torn) :
    openWalFile X (some (file ++ torn)) = .ok ⟨file ++ torn, UInt64.ofNat (log.length + 1)⟩ := by
  obtain ⟨hdr, hheader⟩ := h.header
  have hlong := h.long
  have hlength : (file ++ torn).length = file.length + torn.length := List.length_append
  unfold DurableQueue.openWalFile
  split
  · cases ‹some (file ++ torn) = none›
  · rename_i hnil
    rw [Option.some.inj hnil, List.length_nil] at hlength
    simp only [headerSize] at hlong
    omega
  · rename_i hfile
    obtain rfl := Option.some.inj hfile
    rw [if_neg (by omega), List.take_append_of_le_length h.long, hheader]
    simp only [h.scanForNextSequence hcut]

/-! ## Appending to a reopened log -/

/-- Whatever the writer appends, the scanner reads `log` and the appended records
afterwards. -/
def KeepsLog (X : Crates) (w : WriterThread) (log : List WalRecord) : Prop :=
  ∀ appended w', Appends X w appended w' →
    ∃ res, scanWal X w'.file = .ok res ∧ res.records = log ++ appended.map Prod.fst

theorem Reads.keepsLog (hX : X.Lawful) {whole : List UInt8} {log : List WalRecord}
    (h : Reads X whole log) : KeepsLog X ⟨whole, UInt64.ofNat (log.length + 1)⟩ log := by
  intro appended w' happend
  obtain ⟨hreads', -, -⟩ := happend.reads hX h rfl
  have hscan := hreads'.scan .nil
  rw [List.append_nil] at hscan
  exact ⟨_, hscan, rfl⟩

/-! ## Appending behind a torn tail

The scanner takes the torn bytes and the appended frame for one frame.  Its length is
announced by the torn bytes, or by those and the first bytes of the appended frame. -/

theorem processWrite_none {w : WriterThread} {r : WalRecord} (hr : X.Encodes r)
    (hroom : w.file.length + (frame X w.nextSeq r).length ≤ maxFileSize) :
    w.processWrite X r .none =
      (.ok w.nextSeq, ⟨w.file ++ frame X w.nextSeq r, w.nextSeq + 1⟩) := by
  have henc : WalFrame.encode X ⟨w.nextSeq, r⟩ = .ok (frame X w.nextSeq r) :=
    (encode_eq_ok_iff _ _).mpr ⟨hr, rfl⟩
  simp only [WriterThread.processWrite, henc, if_neg (Nat.not_lt.mpr hroom)]
  rfl

theorem KeepsLog.accepts {whole torn : List UInt8} {seq : UInt64} {log : List WalRecord}
    (h : KeepsLog X ⟨whole ++ torn, seq⟩ log) (hreads : Reads X whole log) (htorn : torn ≠ [])
    {r : WalRecord} (hr : X.Encodes r)
    (hroom : (whole ++ torn).length + (frame X seq r).length ≤ maxFileSize) :
    ∃ f, WalFrame.Accepts X (torn ++ frame X seq r) f ∧ f.record = r := by
  obtain ⟨res, hscan, hrecords⟩ := h _ _ (.snoc .nil (processWrite_none hr hroom))
  rw [List.append_assoc] at hscan
  simp only [List.nil_append, List.map_cons, List.map_nil] at hrecords
  obtain ⟨f, hacc, hprefix⟩ := hreads.scan_behind
    (List.append_ne_nil_of_left_ne_nil htorn _) hscan (by simp [hrecords])
  rw [hrecords] at hprefix
  have heq := (List.prefix_append_right_inj log).mp hprefix |>.eq_of_length rfl
  exact ⟨f, hacc, List.cons.inj heq |>.1⟩

theorem not_accepts_short {torn : List UInt8} {seq : UInt64} {r : WalRecord} {f : WalFrame}
    {payload : List UInt8} (hpayload : X.toAllocvec r = .ok payload)
    (hpos : 0 < payload.length) (hsmall : payload.length < 256) (htorn : torn ≠ [])
    (hshort : torn.length < 4) : ¬ WalFrame.Accepts X (torn ++ frame X seq r) f := by
  intro hacc
  have hlong := hacc.long
  have hlength : (frame X seq r).length = frameOverhead + payload.length := by
    simp only [frame, hpayload, WalFrame.length_bytes]
  have htake : ∃ rest, (torn ++ frame X seq r).take 4 =
      torn ++ UInt8.ofNat payload.length :: rest := by
    obtain ⟨k, hk⟩ : ∃ k, 4 - torn.length = k + 1 := ⟨3 - torn.length, by omega⟩
    rw [List.take_append, List.take_of_length_le hshort.le, hk]
    simp only [frame, hpayload, WalFrame.bytes, WalFrame.covered, toLe, List.cons_append,
      List.take_succ_cons]
    exact ⟨_, rfl⟩
  obtain ⟨rest, htake⟩ := htake
  have hpow : 256 ≤ 256 ^ torn.length := by
    calc 256 = 256 ^ 1 := rfl
      _ ≤ 256 ^ torn.length := Nat.pow_le_pow_right (by decide) (List.length_pos_of_ne_nil htorn)
  have hannounced : 256 * payload.length ≤ fromLe ((torn ++ frame X seq r).take 4) := by
    rw [htake, fromLe_append, fromLe, UInt8.toNat_ofNat_of_lt' hsmall]
    calc 256 * payload.length ≤ 256 ^ torn.length * (payload.length + 256 * fromLe rest) :=
          Nat.mul_le_mul hpow (Nat.le_add_right _ _)
      _ ≤ _ := Nat.le_add_left _ _
  rw [List.length_append, hlength] at hlong
  omega

/-- Two records whose serializations are of `n` bytes and differ in the last byte only. -/
structure Twins (X : Crates) (n : Nat) (r r' : WalRecord) : Prop where
  ne : r ≠ r'
  type : r.recordType = r'.recordType
  payloads : ∃ p b b', X.toAllocvec r = .ok (p ++ [b]) ∧ X.toAllocvec r' = .ok (p ++ [b']) ∧
    p.length + 1 = n

theorem Twins.frames {n : Nat} {r r' : WalRecord} (h : Twins X n r r') (seq : UInt64) :
    ∃ p, p <+: frame X seq r ∧ p <+: frame X seq r' ∧ p.length = 13 + n := by
  obtain ⟨p, b, b', hr, hr', hn⟩ := h.payloads
  have hprefix : ∀ s b, X.toAllocvec s = .ok (p ++ [b]) →
      toLe 4 n ++ (recordVersion :: s.recordType :: (toLe 8 seq.toNat ++ p)) <+: frame X seq s := by
    intro s b hs
    simp only [frame, hs, WalFrame.bytes, WalFrame.covered, List.length_append,
      List.length_singleton, hn, List.append_assoc, List.cons_append, List.prefix_append_right_inj,
      List.cons_prefix_cons, true_and, List.prefix_append]
  refine ⟨_, hprefix r b hr, h.type ▸ hprefix r' b' hr', ?_⟩
  simp only [List.length_append, List.length_cons, length_toLe]
  omega

theorem Twins.encodes {n : Nat} {r r' : WalRecord} (h : Twins X n r r') (hn : n ≤ maxRecordSize) :
    X.Encodes r ∧ X.Encodes r' := by
  obtain ⟨p, b, b', hr, hr', rfl⟩ := h.payloads
  exact ⟨⟨_, hr, by simpa using hn⟩, ⟨_, hr', by simpa using hn⟩⟩

theorem Twins.length_frame {n : Nat} {r r' : WalRecord} (h : Twins X n r r') (seq : UInt64) :
    (frame X seq r).length = frameOverhead + n ∧ (frame X seq r').length = frameOverhead + n := by
  obtain ⟨p, b, b', hr, hr', hn⟩ := h.payloads
  simp only [frame, hr, hr', WalFrame.length_bytes, List.length_append, List.length_singleton, hn,
    and_self]

/-- The decoder tells twins behind the same torn bytes apart only where the announced frame
ends with the appended one. -/
theorem Twins.announced {n : Nat} {r r' : WalRecord} (h : Twins X n r r') {torn : List UInt8}
    {seq : UInt64} {f f' : WalFrame} (hfour : 4 ≤ torn.length)
    (hacc : WalFrame.Accepts X (torn ++ frame X seq r) f)
    (hacc' : WalFrame.Accepts X (torn ++ frame X seq r') f') (hr : f.record = r)
    (hr' : f'.record = r') : fromLe (torn.take 4) = torn.length + n := by
  have hlong := hacc.long
  obtain ⟨hlength, -⟩ := h.length_frame seq
  obtain ⟨p, ⟨a, hp⟩, ⟨b, hp'⟩, hn⟩ := h.frames seq
  have htake : ((torn ++ p).take 4) = torn.take 4 := List.take_append_of_le_length hfour
  rw [List.take_append_of_le_length hfour, List.length_append, hlength] at hlong
  by_contra hne
  have hcover : 14 + fromLe ((torn ++ p).take 4) ≤ (torn ++ p).length := by
    rw [htake, List.length_append, hn]
    simp only [frameOverhead] at hlong
    omega
  rw [← hp, ← List.append_assoc] at hacc
  rw [← hp', ← List.append_assoc] at hacc'
  exact h.ne (hr.symm.trans ((hacc.record_eq hacc' hcover).trans hr'))

theorem Twins.not_keepsLog {n m : Nat} {r r' q q' : WalRecord} (h : Twins X n r r')
    (h' : Twins X m q q') (hnm : n < m) (hsmall : m < 256) {whole torn : List UInt8}
    {seq : UInt64} {log : List WalRecord} (hreads : Reads X whole log) (htorn : torn ≠ [])
    (hroom : (whole ++ torn).length + (frameOverhead + m) ≤ maxFileSize) :
    ¬ KeepsLog X ⟨whole ++ torn, seq⟩ log := by
  intro hkeeps
  have haccepts : ∀ {k s s'}, Twins X k s s' → k ≤ m →
      (∃ f, WalFrame.Accepts X (torn ++ frame X seq s) f ∧ f.record = s) ∧
        ∃ f, WalFrame.Accepts X (torn ++ frame X seq s') f ∧ f.record = s' := by
    intro k s s' htwins hk
    obtain ⟨hlength, hlength'⟩ := htwins.length_frame seq
    obtain ⟨hs, hs'⟩ := htwins.encodes (by simp only [maxRecordSize]; omega)
    exact ⟨hkeeps.accepts hreads htorn hs (by omega), hkeeps.accepts hreads htorn hs' (by omega)⟩
  obtain ⟨⟨f, hacc, hf⟩, f', hacc', hf'⟩ := haccepts h hnm.le
  by_cases hfour : torn.length < 4
  · obtain ⟨p, b, b', hpayload, -, hn⟩ := h.payloads
    refine not_accepts_short hpayload ?_ ?_ htorn hfour hacc
    all_goals
      rw [List.length_append, List.length_singleton]
      omega
  · obtain ⟨⟨g, hgacc, hg⟩, g', hgacc', hg'⟩ := haccepts h' le_rfl
    have hn := h.announced (Nat.not_lt.mp hfour) hacc hacc' hf hf'
    have hm := h'.announced (Nat.not_lt.mp hfour) hgacc hgacc' hg hg'
    omega

theorem twins_jobCancelled :
    Twins Postcard.crates 19 (.jobCancelled ⟨1⟩ ⟨0⟩) (.jobCancelled ⟨1⟩ ⟨1⟩) :=
  ⟨by decide, rfl, Postcard.put (.jobCancelled ⟨1⟩ ⟨0⟩) |>.dropLast, 0, 2, by decide +kernel⟩

theorem twins_jobCompleted :
    Twins Postcard.crates 20 (.jobCompleted ⟨1⟩ ⟨1⟩ ⟨0⟩) (.jobCompleted ⟨1⟩ ⟨1⟩ ⟨1⟩) :=
  ⟨by decide, rfl, Postcard.put (.jobCompleted ⟨1⟩ ⟨1⟩ ⟨0⟩) |>.dropLast, 0, 2, by decide +kernel⟩

/-- Every file that the scanner accepts is opened, with the number behind its last one.  If
it has no torn tail, the scanner reads its records and whatever is appended; with
`postcard`'s format and room for a frame, only then. -/
theorem reopen_keeps_log_iff (hX : X.Lawful) {file : List UInt8} {res : ScanResult}
    (h : scanWal X file = .ok res) :
    ∃ w, openWalFile X (some file) = .ok w ∧ w.nextSeq.toNat = res.lastSequence.toNat + 1 ∧
      (res.hadTruncatedTail = false → KeepsLog X w res.records) ∧
      (X = Postcard.crates → file.length + 38 ≤ maxFileSize →
        (KeepsLog X w res.records ↔ res.hadTruncatedTail = false)) := by
  by_cases hnil : file = []
  · -- an empty file gets its header
    subst hnil
    cases h
    have hkeeps : KeepsLog X ⟨headerBytes, 1⟩ [] := reads_headerBytes.keepsLog hX
    exact ⟨⟨headerBytes, 1⟩, rfl, rfl, fun _ => hkeeps, fun _ _ => iff_of_true hkeeps rfl⟩
  obtain ⟨whole, torn, rfl, hreads, hcut, hres⟩ := scanWal_ok hnil h
  have htail : res.hadTruncatedTail = decide (torn ≠ []) :=
    congrArg ScanResult.hadTruncatedTail hres
  have hkeeps : res.hadTruncatedTail = false →
      KeepsLog X ⟨whole ++ torn, UInt64.ofNat (res.records.length + 1)⟩ res.records := by
    intro hwhole
    obtain rfl : torn = [] := by simpa [htail] using hwhole
    rw [List.append_nil]
    exact hreads.keepsLog hX
  refine ⟨_, hreads.openWalFile hcut, ?_, hkeeps, ?_⟩
  · have hlt := hreads.length_lt
    rw [hres]
    simp only [ScanState.finish, ScanState.after]
    rw [UInt64.toNat_ofNat_of_lt' hlt, UInt64.toNat_ofNat_of_lt' (Nat.lt_of_succ_lt hlt)]
  · rintro rfl hroom
    refine ⟨fun hkept => ?_, hkeeps⟩
    by_contra hne
    have htorn : torn ≠ [] := by simpa [htail] using hne
    exact twins_jobCancelled.not_keepsLog twins_jobCompleted (by decide) (by decide) hreads htorn
      hroom hkept

def reopenLog : List WalRecord :=
  [.jobSubmitted ⟨1⟩ ⟨"mail"⟩ ⟨[1, 2], 3⟩ ⟨0⟩, .jobLeased ⟨1⟩ ⟨1⟩ 1 ⟨0⟩]

/-- The file that `WalWriter::open` and one append leave. -/
def appendReopened (file : List UInt8) (r : WalRecord) : Option (List UInt8) :=
  match openWalFile Postcard.crates (some file) with
  | .error _ => none
  | .ok w =>
    match w.processWrite Postcard.crates r .none with
    | (.ok _, w') => some w'.file
    | (.error _, _) => none

theorem reopen_keeps_log_whole : ∃ file res,
    appendReopened (logBytes Postcard.crates reopenLog) (.jobCancelled ⟨1⟩ ⟨0⟩) = some file ∧
      scanWal Postcard.crates file = .ok res ∧
      res.records = reopenLog ++ [.jobCancelled ⟨1⟩ ⟨0⟩] := by
  have hscan : scanWal Postcard.crates (logBytes Postcard.crates reopenLog) = .ok
      { records := reopenLog
        lastSequence := 2
        maxLeaseEpoch := 1
        lastValidOffset := 85
        hadTruncatedTail := false } := by
    decide +kernel
  obtain ⟨w, hopen, hseq, hkeeps, -⟩ := reopen_keeps_log_iff Postcard.crates_lawful hscan
  have happended : (appendReopened (logBytes Postcard.crates reopenLog)
      (.jobCancelled ⟨1⟩ ⟨0⟩)).isSome := by
    decide +kernel
  unfold appendReopened at happended ⊢
  rw [hopen] at happended ⊢
  rcases hwrite : w.processWrite Postcard.crates (.jobCancelled ⟨1⟩ ⟨0⟩) .none with ⟨ret, w'⟩
  simp only [hwrite] at happended ⊢
  cases ret with
  | error e => cases happended
  | ok seq =>
    obtain ⟨res, hres, hrecords⟩ := hkeeps rfl _ w' (.snoc .nil hwrite)
    exact ⟨w'.file, res, rfl, hres, hrecords⟩

/-- Behind a torn tail an append succeeds, and either makes the log unreadable or is itself
not read: here behind two bytes, and behind the first 20 bytes of a frame of 144. -/
theorem reopen_torn_loses :
    (appendReopened (logBytes Postcard.crates reopenLog ++ [1, 2]) (.jobCancelled ⟨1⟩ ⟨0⟩)).map
      (scanWal Postcard.crates) = some (.error (.recordTooLarge 1245697)) ∧
    (appendReopened (logBytes Postcard.crates reopenLog ++
      (frame Postcard.crates 3
        (.jobSubmitted ⟨2⟩ ⟨"mail"⟩ ⟨List.replicate 100 0, 3⟩ ⟨0⟩)).take 20)
      (.jobCancelled ⟨1⟩ ⟨0⟩)).map (fun file => (scanWal Postcard.crates file).map (·.records)) =
        some (.ok reopenLog) := by
  decide +kernel

end DurableQueue
