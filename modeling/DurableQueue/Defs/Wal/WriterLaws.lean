import DurableQueue.Defs.Wal.Writer

/-! What the log holds after a sequence of appends of which any may fail. -/

namespace DurableQueue

theorem Reads.length_lt_of_room {X : Crates} {file : List UInt8} {log : List WalRecord}
    (h : Reads X file log) {n : Nat} (hroom : file.length + n ≤ maxFileSize) :
    log.length + 2 < 2 ^ 64 := by
  have hge := h.frames.length_ge
  rw [List.length_drop] at hge
  simp only [maxFileSize, isizeMax, frameOverhead] at hroom hge
  omega

namespace WriterThread

variable {X : Crates}

/-- The writer stands behind the records `log`, followed by `torn` bytes of a failed append. -/
structure Holds (X : Crates) (w : WriterThread) (log : List WalRecord) (torn : List UInt8) :
    Prop where
  file_eq : w.file = logBytes X log ++ torn
  nextSeq_eq : w.nextSeq = UInt64.ofNat (log.length + 1)
  encodes : ∀ r ∈ log, X.Encodes r
  torn : Torn X torn
  size_le : w.file.length ≤ maxFileSize

theorem Holds.scan (hX : X.Lawful) {w : WriterThread} {log : List WalRecord}
    {torn : List UInt8} (h : Holds X w log torn) :
    scanWal X w.file = .ok ((scanned X log).finish (decide (torn ≠ []))) := by
  have hsize := h.size_le
  rw [h.file_eq] at hsize ⊢
  exact scanWal_logBytes hX h.encodes h.torn hsize

theorem Holds.reads (hX : X.Lawful) {w : WriterThread} {log : List WalRecord}
    {torn : List UInt8} (h : Holds X w log torn) : Reads X (logBytes X log) log := by
  have hsize := h.size_le
  rw [h.file_eq, List.length_append] at hsize
  exact reads_logBytes hX h.encodes ((Nat.le_add_right _ _).trans hsize)

/-- The call fails after its whole frame has been written. -/
def SyncFails (X : Crates) (call : WalRecord × Fault) : Prop :=
  X.Encodes call.1 ∧ ∃ e, call.2 = .sync e

/-- The call fails and leaves part of its frame in the file. -/
def Tears (X : Crates) (call : WalRecord × Fault) : Prop :=
  X.Encodes call.1 ∧ ∃ e n, 0 < n ∧ call.2 = .write e n

/-- The call fails and writes nothing. -/
def Silent (X : Crates) (call : WalRecord × Fault) : Prop :=
  ¬ X.Encodes call.1 ∨ (∃ e, call.2 = .before e) ∨ ∃ e, call.2 = .write e 0

theorem processWrite_cases (w : WriterThread) (r : WalRecord) (fault : Fault) :
    (∃ e, w.processWrite X r fault = (.error e, w)) ∨
      (X.Encodes r ∧ w.file.length + (frame X w.nextSeq r).length ≤ maxFileSize ∧
        w.processWrite X r fault = w.writeSync (frame X w.nextSeq r) fault ∧
        ∀ e, fault ≠ .before e) := by
  cases henc : WalFrame.encode X ⟨w.nextSeq, r⟩ with
  | error e =>
    left
    cases fault <;> simp [processWrite, henc]
  | ok encoded =>
    obtain ⟨hr, rfl⟩ := (encode_eq_ok_iff _ _).mp henc
    by_cases hroom : w.file.length + (frame X w.nextSeq r).length > maxFileSize
    · left
      cases fault <;> simp [processWrite, henc, hroom]
    · cases fault with
      | before e => exact Or.inl ⟨e, rfl⟩
      | none | write | sync =>
        right
        refine ⟨hr, by omega, ?_, by simp⟩
        simp only [processWrite, henc, hroom, if_false]

theorem processWrite_ok {w w' : WriterThread} {r : WalRecord} {fault : Fault} {seq : UInt64}
    (h : w.processWrite X r fault = (.ok seq, w')) :
    X.Encodes r ∧ w.file.length + (frame X w.nextSeq r).length ≤ maxFileSize ∧ seq = w.nextSeq ∧
      w' = ⟨w.file ++ frame X w.nextSeq r, w.nextSeq + 1⟩ := by
  rcases processWrite_cases (X := X) w r fault with ⟨e, he⟩ | ⟨hr, hroom, hw, hbefore⟩
  · rw [he] at h
    cases h
  · rw [hw] at h
    cases fault with
    | none =>
      cases h
      exact ⟨hr, hroom, rfl, rfl⟩
    | before e => exact absurd rfl (hbefore e)
    | write | sync => cases h

theorem processWrite_silent (w : WriterThread) {call : WalRecord × Fault}
    (h : Silent X call) :
    ∃ e, w.processWrite X call.1 call.2 = (.error e, w) := by
  rcases processWrite_cases (X := X) w call.1 call.2 with hsame | ⟨hr, _, hw, hbefore⟩
  · exact hsame
  rcases h with hn | ⟨e, he⟩ | ⟨e, he⟩
  · exact absurd hr hn
  · exact absurd he (hbefore e)
  · exact ⟨e, by rw [hw, he]; simp [writeSync]⟩

theorem Holds.snoc {w : WriterThread} {log : List WalRecord} (h : Holds X w log [])
    {r : WalRecord} (hr : X.Encodes r)
    (hroom : w.file.length + (frame X w.nextSeq r).length ≤ maxFileSize) :
    Holds X ⟨w.file ++ frame X w.nextSeq r, w.nextSeq + 1⟩ (log ++ [r]) [] := by
  refine ⟨?_, ?_, ?_, Torn.nil, by simpa using hroom⟩
  · rw [logBytes_snoc, h.nextSeq_eq, h.file_eq, List.append_nil, List.append_nil]
  · simp [h.nextSeq_eq]
  · intro r' hr'
    rcases List.mem_append.mp hr' with hr' | hr'
    · exact h.encodes r' hr'
    · rw [List.mem_singleton.mp hr']
      exact hr

theorem Holds.tear {w : WriterThread} {log : List WalRecord} (h : Holds X w log [])
    {r : WalRecord} (hr : X.Encodes r) {torn : List UInt8}
    (hp : torn <+: frame X w.nextSeq r) (hlt : torn.length < (frame X w.nextSeq r).length)
    (hroom : w.file.length + (frame X w.nextSeq r).length ≤ maxFileSize) :
    Holds X { w with file := w.file ++ torn } log torn := by
  refine ⟨?_, h.nextSeq_eq, h.encodes, Or.inr ⟨_, r, hr, hp, hlt⟩, ?_⟩
  · rw [h.file_eq, List.append_nil]
  · simp only [List.length_append]
    omega

theorem Holds.processWrite {w : WriterThread} {log : List WalRecord}
    (h : Holds X w log []) (r : WalRecord) (fault : Fault) (hs : ¬ SyncFails X (r, fault)) :
    (∃ w', w.processWrite X r fault = (.ok (UInt64.ofNat (log.length + 1)), w') ∧
        Holds X w' (log ++ [r]) []) ∨
      ∃ e w' torn, w.processWrite X r fault = (.error e, w') ∧ Holds X w' log torn ∧
        (torn ≠ [] → Tears X (r, fault)) := by
  rcases processWrite_cases (X := X) w r fault with ⟨e, he⟩ | ⟨hr, hroom, hw, hbefore⟩
  · exact Or.inr ⟨e, w, [], he, h, by simp⟩
  have hpos := length_frame_pos w.nextSeq hr
  simp only [frameOverhead] at hpos
  rw [hw]
  cases fault with
  | none =>
    left
    exact ⟨_, by simp only [writeSync, h.nextSeq_eq], h.snoc hr hroom⟩
  | before e => exact absurd rfl (hbefore e)
  | sync e => exact absurd ⟨hr, e, rfl⟩ hs
  | write e n =>
    right
    have hlt : ((frame X w.nextSeq r).dropLast.take n).length < (frame X w.nextSeq r).length := by
      simp only [List.length_take, List.length_dropLast]
      omega
    have hp := (List.take_prefix n _).trans (List.dropLast_prefix (frame X w.nextSeq r))
    refine ⟨e, _, _, rfl, h.tear hr hp hlt hroom, ?_⟩
    intro hne
    refine ⟨hr, e, n, ?_, rfl⟩
    rcases Nat.eq_zero_or_pos n with rfl | hn
    · simp at hne
    · exact hn

theorem Holds.interrupted {w : WriterThread} {log : List WalRecord} (h : Holds X w log [])
    (r : WalRecord) (written : Nat) :
    ∃ landed torn seq, (landed = [] ∨ landed = [r]) ∧
      Holds X ⟨w.interrupted X r written, seq⟩ (log ++ landed) torn := by
  have hsame : Holds X ⟨w.file, w.nextSeq⟩ (log ++ []) [] := by rwa [List.append_nil]
  unfold WriterThread.interrupted
  cases henc : WalFrame.encode X ⟨w.nextSeq, r⟩ with
  | error e => exact ⟨[], [], w.nextSeq, Or.inl rfl, hsame⟩
  | ok encoded =>
    obtain ⟨hr, rfl⟩ := (encode_eq_ok_iff _ _).mp henc
    simp only
    split
    · exact ⟨[], [], w.nextSeq, Or.inl rfl, hsame⟩
    · rename_i hroom
      have hroom := Nat.not_lt.mp hroom
      by_cases hlt : written < (frame X w.nextSeq r).length
      · refine ⟨[], (frame X w.nextSeq r).take written, w.nextSeq, Or.inl rfl, ?_⟩
        rw [List.append_nil]
        refine h.tear hr (List.take_prefix _ _) ?_ hroom
        rw [List.length_take]
        exact (Nat.min_le_left _ _).trans_lt hlt
      · refine ⟨[r], [], w.nextSeq + 1, Or.inr rfl, ?_⟩
        rw [List.take_of_length_le (Nat.not_lt.mp hlt)]
        exact h.snoc hr hroom

theorem appendAll_silent (w : WriterThread) {calls : List (WalRecord × Fault)}
    (h : ∀ c ∈ calls, Silent X c) : w.appendAll X calls = (w, []) := by
  induction calls with
  | nil => rfl
  | cons c calls ih =>
    obtain ⟨e, he⟩ := processWrite_silent w (h c (by simp))
    simp only [appendAll, he]
    exact ih (fun c' hc' => h c' (by simp [hc']))

/-- The sequence numbers that appends to a log of `n` records are answered with. -/
def Numbered (n : Nat) (acked : List (WalRecord × UInt64)) : Prop :=
  ∀ i (h : i < acked.length), acked[i].2 = UInt64.ofNat (n + i + 1)

/-- As long as no append fails in its sync, and nothing is written behind a torn frame,
the log holds exactly the acknowledged records. -/
theorem Holds.appendAll {w : WriterThread} {log : List WalRecord} (h : Holds X w log [])
    {calls : List (WalRecord × Fault)} (hsync : ∀ c ∈ calls, ¬ SyncFails X c)
    (htear : calls.Pairwise (fun a b => Tears X a → Silent X b)) :
    ∃ torn, Holds X (w.appendAll X calls).1
        (log ++ (w.appendAll X calls).2.map Prod.fst) torn ∧
      Numbered log.length (w.appendAll X calls).2 := by
  induction calls generalizing w log with
  | nil =>
    refine ⟨[], by simpa [WriterThread.appendAll] using h, ?_⟩
    intro i hi
    simp [WriterThread.appendAll] at hi
  | cons c calls ih =>
    obtain ⟨r, fault⟩ := c
    obtain ⟨hfirst, htear⟩ := List.pairwise_cons.mp htear
    have hsync' : ∀ c ∈ calls, ¬ SyncFails X c := fun c hc => hsync c (by simp [hc])
    rcases h.processWrite r fault (hsync _ (by simp)) with
      ⟨w', hw, h'⟩ | ⟨e, w', torn, hw, h', htorn⟩
    · obtain ⟨torn, hlog, hnum⟩ := ih h' hsync' htear
      refine ⟨torn, ?_, ?_⟩
      · simpa [WriterThread.appendAll, hw] using hlog
      · intro i hi
        simp only [WriterThread.appendAll, hw] at hi ⊢
        cases i with
        | zero => simp
        | succ i =>
          have := hnum i (by simpa using hi)
          rw [List.getElem_cons_succ, this]
          congr 1
          simp only [List.length_append, List.length_singleton]
          omega
    · simp only [WriterThread.appendAll, hw]
      by_cases hnil : torn = []
      · subst hnil
        exact ih h' hsync' htear
      · -- the tail is torn: by assumption every later call leaves the file alone
        have hrest := appendAll_silent w' (fun c hc => hfirst c hc (htorn hnil))
        rw [hrest]
        refine ⟨torn, by simpa using h', ?_⟩
        intro i hi
        simp at hi

/-- What a log promises its writers: it can be scanned, and it holds the records it
started with followed by the acknowledged ones, each at the position it was answered with. -/
def Integrity (X : Crates) (log : List WalRecord) (w : WriterThread)
    (acked : List (WalRecord × UInt64)) : Prop :=
  (∃ res, scanWal X w.file = .ok res ∧ res.records = log ++ acked.map Prod.fst) ∧
    Numbered log.length acked

/-- In a run of appends none of which fails in its sync, and none of which writes behind a
torn frame, the log keeps its promise after every call. -/
theorem appendAll_integrity (hX : X.Lawful) {w : WriterThread} {log : List WalRecord}
    (h : Holds X w log []) {calls : List (WalRecord × Fault)}
    (hsync : ∀ c ∈ calls, ¬ SyncFails X c)
    (htear : calls.Pairwise (fun a b => Tears X a → Silent X b)) (n : Nat) :
    Integrity X log (w.appendAll X (calls.take n)).1 (w.appendAll X (calls.take n)).2 := by
  obtain ⟨torn, hlog, hnum⟩ := h.appendAll
    (fun c hc => hsync c (List.mem_of_mem_take hc)) (htear.sublist (List.take_sublist n calls))
  exact ⟨⟨_, hlog.scan hX, rfl⟩, hnum⟩

def fresh : WriterThread := ⟨headerBytes, 1⟩

theorem fresh_holds : Holds X fresh [] [] :=
  ⟨by simp [fresh, logBytes], rfl, by simp, Torn.nil, by decide⟩

/-- The second of two appends is cut after five bytes. -/
theorem appendAll_integrity_torn :
    Integrity Postcard.crates []
      (fresh.appendAll Postcard.crates ([(.jobCancelled ⟨1⟩ ⟨5⟩, .none),
        (.jobCancelled ⟨2⟩ ⟨7⟩, .write (.io "disk full") 5)].take 2)).1
      (fresh.appendAll Postcard.crates ([(.jobCancelled ⟨1⟩ ⟨5⟩, .none),
        (.jobCancelled ⟨2⟩ ⟨7⟩, .write (.io "disk full") 5)].take 2)).2 := by
  apply appendAll_integrity Postcard.crates_lawful fresh_holds
  · intro c hc
    fin_cases hc <;> simp [SyncFails]
  · simp [Tears]

/-- A failed sync followed by an acknowledged append: both frames carry sequence number 1,
and the log can no longer be read. -/
theorem sync_failure_unreadable :
    (fresh.appendAll Postcard.crates
        [(.jobCancelled ⟨1⟩ ⟨5⟩, .sync .syncFailed), (.jobCancelled ⟨2⟩ ⟨7⟩, .none)]).2 =
      [(.jobCancelled ⟨2⟩ ⟨7⟩, 1)] ∧
    scanWal Postcard.crates (fresh.appendAll Postcard.crates
        [(.jobCancelled ⟨1⟩ ⟨5⟩, .sync .syncFailed), (.jobCancelled ⟨2⟩ ⟨7⟩, .none)]).1.file =
      .error (.sequenceViolation 2 1) ∧
    ¬ Integrity Postcard.crates []
      (fresh.appendAll Postcard.crates
        [(.jobCancelled ⟨1⟩ ⟨5⟩, .sync .syncFailed), (.jobCancelled ⟨2⟩ ⟨7⟩, .none)]).1
      (fresh.appendAll Postcard.crates
        [(.jobCancelled ⟨1⟩ ⟨5⟩, .sync .syncFailed), (.jobCancelled ⟨2⟩ ⟨7⟩, .none)]).2 := by
  have hscan : scanWal Postcard.crates (fresh.appendAll Postcard.crates
        [(.jobCancelled ⟨1⟩ ⟨5⟩, .sync .syncFailed), (.jobCancelled ⟨2⟩ ⟨7⟩, .none)]).1.file =
      .error (.sequenceViolation 2 1) := by decide +kernel
  refine ⟨by decide +kernel, hscan, ?_⟩
  rintro ⟨⟨res, hres, _⟩, _⟩
  rw [hscan] at hres
  cases hres

/-- The converse for a failing sync: the very next scan finds a record that nobody was
told about. -/
theorem sync_failure_breaks (hX : X.Lawful) {w : WriterThread} {log : List WalRecord}
    (h : Holds X w log []) {r : WalRecord} (hr : X.Encodes r) (e : WalError)
    (hroom : w.file.length + (frame X w.nextSeq r).length ≤ maxFileSize) :
    ¬ Integrity X log (w.appendAll X [(r, .sync e)]).1 (w.appendAll X [(r, .sync e)]).2 := by
  rcases processWrite_cases (X := X) w r (.sync e) with ⟨_, he⟩ | ⟨_, _, hw, _⟩
  · -- the frame encodes and fits, so the append does get as far as its sync
    have henc : WalFrame.encode X ⟨w.nextSeq, r⟩ = .ok (frame X w.nextSeq r) :=
      (encode_eq_ok_iff _ _).mpr ⟨hr, rfl⟩
    simp only [WriterThread.processWrite, henc, gt_iff_lt, Nat.not_lt.mpr hroom, if_false,
      writeSync, Prod.mk.injEq] at he
    have hfile := congrArg (fun w => w.file.length) he.2
    have hpos := length_frame_pos w.nextSeq hr
    simp only [frameOverhead, List.length_append] at hfile hpos
    omega
  rintro ⟨⟨res, hres, hrec⟩, _⟩
  simp only [WriterThread.appendAll, hw, writeSync] at hres hrec
  rw [(h.snoc hr hroom).scan hX] at hres
  cases hres
  simp [ScanState.finish, scanned] at hrec

end WriterThread

end DurableQueue
