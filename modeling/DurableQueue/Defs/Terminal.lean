import DurableQueue.Defs.SystemLaws

/-! Completed, dead and cancelled jobs stay as they are, over any number of restarts. -/

namespace DurableQueue

open Coordinator

variable {X : Crates} {config : RuntimeConfig} {log : List WalRecord}

theorem Legal.absorbs {recs : List WalRecord} (h : Legal config (log ++ recs)) {id : JobId}
    {job : JobRecord} (hjob : (replayed log).get id = some job) (hterm : job.state.isTerminal) :
    (∀ r ∈ recs, r.jobId ≠ id) ∧ (replayed (log ++ recs)).get id = some job := by
  induction recs using List.reverseRecOn with
  | nil => exact ⟨fun _ hr => (nomatch hr), by rwa [List.append_nil]⟩
  | append_singleton recs r ih =>
    rw [← List.append_assoc] at h ⊢
    obtain ⟨hother, hsame⟩ := ih (h.initialSegment (List.prefix_append _ _))
    have hne : r.jobId ≠ id := by
      rintro rfl
      by_cases hsub : r.isSubmitted
      · cases h.last with
        | submit hfresh =>
          rw [WalRecord.jobId] at hsame
          rw [hsame] at hfresh
          cases hfresh
        | lease | retry | complete | die | cancel => cases hsub
      · rw [Bool.not_eq_true] at hsub
        obtain ⟨job', hjob', hlive⟩ := h.last.job hsub
        rw [hsame] at hjob'
        cases hjob'
        rw [hterm] at hlive
        cases hlive
    refine ⟨fun r' hr' => ?_, ?_⟩
    · rcases List.mem_append.mp hr' with hr' | hr'
      · exact hother r' hr'
      · rwa [List.mem_singleton.mp hr']
    · rw [replayed, MemoryStore.replay_snoc, MemoryStore.get_applyRecordForRecovery,
        if_neg (Ne.symm hne)]
      exact hsame

/-! ## What an answer shows -/

inductive Reply.Shows : Reply → JobState → Prop
  | job {job : JobRecord} : Shows (.job (.ok job)) job.state
  | refused {st : JobState} : Shows (.job (.error (.invalidTransition st .cancelled))) st

namespace Coordinator

variable {env : Env} {s s' : Coordinator}

def AnswersTruly (s : Coordinator) (id : JobId) (m : CoordM (Except Error JobRecord)) : Prop :=
  wp m (fun result s' => s'.sent = s.sent ∧ ∀ st, (Reply.job result).Shows st →
    ∃ job, s'.store.get id = some job ∧ job.state = st) (fun _ _ => True) s

theorem doStatus_answersTruly (id : JobId) : AnswersTruly s id (doStatus id) := by
  refine (wp_bind _ _).mpr (wp_get.mpr ?_)
  cases hjob : s.store.get id with
  | none => exact ⟨rfl, fun st h => nomatch h⟩
  | some job =>
    refine ⟨rfl, fun st h => ?_⟩
    cases h
    exact ⟨job, hjob, rfl⟩

theorem doCancel_answersTruly (id : JobId) : AnswersTruly s id (doCancel X env id) := by
  refine (wp_bind _ _).mpr (wp_get.mpr ?_)
  cases hjob : s.store.get id with
  | none => exact ⟨rfl, fun st h => by cases h⟩
  | some job =>
    dsimp only
    split
    · refine ⟨rfl, fun st h => ?_⟩
      cases h
      exact ⟨job, hjob, rfl⟩
    · rename_i hlive
      rw [Bool.not_eq_true] at hlive
      refine (wp_bind _ _).mpr ((wp_bind _ _).mpr (wp_persist (P := fun _ => True)
        (fun _ => trivial) ?_ ?_ fun _ _ _ => trivial))
      · intro fault seq storage _ _
        let r : WalRecord := .jobCancelled id (env.wall s.tick)
        have happly : s.store.applyRecord r = .ok (s.store.applyRecordForRecovery r) :=
          MemoryStore.applyRecord_eq hjob (MemoryStore.isValidTransition_cancelled hlive)
        have hget : (s.store.applyRecordForRecovery r).get id = some (r.update job) := by
          rw [MemoryStore.get_applyRecordForRecovery, if_pos (show id = r.jobId from rfl),
            hjob, WalRecord.effect_some]
        refine (wp_bind _ _).mpr (wp_applyRecord_ok happly ?_)
        refine (wp_bind _ _).mpr (wp_get.mpr ((wp_bind _ _).mpr ((wp_modify _).mpr ?_)))
        rw [exposeCancel_eq]
        refine ⟨rfl, fun st h => ?_⟩
        change Reply.Shows (.job (.ok (((s.store.applyRecordForRecovery r).get id).getD job))) st at h
        rw [hget] at h
        cases h
        exact ⟨_, hget, rfl⟩
      · intro fault e storage _ _
        exact ⟨rfl, fun st h => by cases h⟩

theorem AnswersTruly.shown {id : JobId} {m : CoordM (Except Error JobRecord)}
    (h : AnswersTruly s id m) {reply : Sender}
    (hexec : (do let result ← m; modify (send reply (.job result)) : CoordM Unit) s = .ok () s')
    {msg : Reply} (hsent : s'.sent = s.sent ++ [(reply, msg)]) {st : JobState}
    (hshows : msg.Shows st) : ∃ job, s'.store.get id = some job ∧ job.state = st := by
  have hwp : wp (do let result ← m; modify (send reply (.job result)) : CoordM Unit)
      (fun _ s' => ∀ msg, s'.sent = s.sent ++ [(reply, msg)] → ∀ st, msg.Shows st →
        ∃ job, s'.store.get id = some job ∧ job.state = st) (fun _ _ => True) s := by
    refine (wp_bind _ _).mpr (wp_mono h ?_ fun _ _ _ => trivial)
    rintro result s₁ ⟨hsame, hjob⟩ msg hmsg st hshows
    change s₁.sent ++ [(reply, .job result)] = s.sent ++ [(reply, msg)] at hmsg
    rw [hsame, List.append_cancel_left_eq, List.cons.injEq, Prod.mk.injEq] at hmsg
    rw [← hmsg.1.2] at hshows
    exact hjob st hshows
  exact wp_ok hwp hexec msg hsent st hshows

theorem exec_shows {op : Op} {id : JobId} {reply : Sender}
    (hop : op = .handle (.status id reply) ∨ op = .handle (.cancel id reply))
    (hexec : exec X config env op s = .ok () s') {msg : Reply}
    (hsent : s'.sent = s.sent ++ [(reply, msg)]) {st : JobState} (hshows : msg.Shows st) :
    ∃ job, s'.store.get id = some job ∧ job.state = st := by
  rcases hop with rfl | rfl
  · exact (doStatus_answersTruly id).shown hexec hsent hshows
  · exact (doCancel_answersTruly id).shown hexec hsent hshows

theorem Sound.replayed_terminal {base : List WalRecord} {past : List LeaseId} {s₀ : Coordinator}
    (h : Sound X config base past s₀ s) {id : JobId} {job : JobRecord}
    (hterm : job.state.isTerminal) :
    s.store.get id = some job ↔ (replayed (base ++ s.acked)).get id = some job := by
  constructor
  · intro hjob
    refine h.logged.store.get_eq hjob ?_
    rintro hstate
    rw [hstate] at hterm
    cases hterm
  · intro hjob
    cases hlive : s.store.get id with
    | none =>
      rw [h.logged.store.get_none.mp hlive] at hjob
      cases hjob
    | some job' =>
      rcases h.logged.store.get_some hlive with hr | ⟨_, hr⟩
      · rw [← hr, hjob]
      · rw [hr] at hjob
        cases hjob
        cases hterm

def mailCancelled : Coordinator :=
  after Postcard.crates mailConfig (mailEnv ⟨2⟩ .none) (.handle (.cancel ⟨1⟩ 7)) mailSubmitted

def mailCancelRestarted : Coordinator :=
  startedOr mailStart (startWal Postcard.crates mailBoot mailConfig (some mailCancelled.logFile)).1

end Coordinator

/-- Once an answer has shown a job as ended, nothing happens to it any more, whatever happens
to the system: later records are about other jobs, the job keeps its state in the log and in
the memory of every process, and no process has a lease for it. -/
theorem terminal_absorbing (hX : X.Lawful) (hC : X.Compact) {past : List Event}
    {s₀ s s' : Coordinator} (h : Reachable X Fault.Clean config (.up past s₀ s)) {op : Op}
    {env : Env} {id : JobId} {reply : Sender}
    (hop : op = .handle (.status id reply) ∨ op = .handle (.cancel id reply))
    (henabled : op.Enabled Fault.Clean env s) (hexec : exec X config env op s = .ok () s')
    {msg : Reply} (hsent : s'.sent = s.sent ++ [(reply, msg)]) {st : JobState}
    (hshows : msg.Shows st) (hst : st.isTerminal) {sys : Sys}
    (hlater : Relation.ReflTransGen (SysStep X Fault.Clean config) (.up past s₀ s') sys) :
    (∃ later, sys.log X = (Sys.up past s₀ s').log X ++ later ∧ ∀ r ∈ later, r.jobId ≠ id) ∧
      ((replayed (sys.log X)).get id).map (·.state) = some st ∧
      ∀ past' t₀ t, sys = .up past' t₀ t →
        (t.store.get id).map (·.state) = some st ∧ t.leases.get id = none := by
  obtain ⟨job, hjob, rfl⟩ := exec_shows hop hexec hsent hshows
  have hat := Reachable.atLog hX hC (h.tail (.proc (.exec henabled hexec)))
  obtain ⟨later, hat'⟩ := Sys.at_steps hX hC hlater hat
  have hlog := hat'.log_eq hX
  -- the log of `s'` already knows that the job has ended
  have hreplayed : (replayed ((Sys.up past s₀ s').log X)).get id = some job := by
    obtain ⟨base, hbase, hsound, _⟩ := hat
    rw [hbase]
    exact (hsound.replayed_terminal hst).mp hjob
  obtain ⟨hother, hsame⟩ := hat'.legal.absorbs hreplayed hst
  refine ⟨⟨later, hlog, hother⟩, by rw [hlog, hsame]; rfl, ?_⟩
  rintro past' t₀ t rfl
  obtain ⟨base, hbase, hsound, _⟩ := hat'
  rw [hbase] at hsame
  have hget := (hsound.replayed_terminal hst).mpr hsame
  refine ⟨by rw [hget]; rfl, ?_⟩
  refine hsound.placement.not_leased (MemoryStore.place_of_get hget) ?_
  intro hrun
  rw [hrun] at hst
  cases hst

/-- A job is cancelled, and the process is stopped and started again. -/
theorem terminal_absorbing_cancelled :
    (mailCancelRestarted.store.get ⟨1⟩).map (·.state) = some .cancelled ∧
      mailCancelRestarted.leases.get ⟨1⟩ = none := by
  have henabled : (Op.handle (.cancel ⟨1⟩ 7)).Enabled Fault.Clean (mailEnv ⟨2⟩ .none)
      mailSubmitted := ⟨rfl, trivial, fun _ => trivial, fun _ => rfl⟩
  have hreach := (mailStart_reachable Fault.Clean).run
    ((Relation.ReflTransGen.single (mailAcquired_step Fault.Clean)).tail
      (mailSubmitted_step Fault.Clean trivial))
  have hexec : exec Postcard.crates mailConfig (mailEnv ⟨2⟩ .none) (.handle (.cancel ⟨1⟩ 7))
      mailSubmitted = .ok () mailCancelled := exec_eq_after (by decide +kernel)
  obtain ⟨file, hstart⟩ : ∃ file, startWal Postcard.crates mailBoot mailConfig
      (some mailCancelled.logFile) = (.ok mailCancelRestarted, file) :=
    startWal_of_isOk mailStart (by decide +kernel)
  exact (terminal_absorbing Postcard.crates_lawful Postcard.crates_compact hreach (Or.inr rfl)
    henabled hexec (show mailCancelled.sent = mailSubmitted.sent ++ [(7, .job (.ok
      ⟨⟨1⟩, ⟨"mail"⟩, ⟨[1, 2], 3⟩, .cancelled, 0, ⟨0⟩⟩))] from rfl) .job rfl
    ((Relation.ReflTransGen.single .stop).tail (.boot hstart))).2.2 _ _ _ rfl

end DurableQueue
