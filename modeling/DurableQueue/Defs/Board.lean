import DurableQueue.Lib.Board
import DurableQueue.Defs.Attempts
import DurableQueue.Defs.Handing

/-! The queue as a board of tickets.  Crashes and restarts are not seen on the board, nor is
it seen that a waiting job has been put back into its queue. -/

namespace DurableQueue

open Coordinator

variable {X : Crates} {config : RuntimeConfig} {log : List WalRecord}

structure Request where
  queue : QueueName
  spec : JobSpec
  createdAt : UnixMillis
  deriving DecidableEq

def RuntimeConfig.rules (config : RuntimeConfig) : Rules Request String where
  queue request := request.queue.asStr
  limit request := request.spec.maxAttempts.toNat
  capacity := config.capacity

def JobState.standing : JobState → Standing
  | .queued | .retryWaiting => .waiting
  | .running => .running
  | .completed => .completed
  | .dead => .dead
  | .cancelled => .cancelled

@[simp] theorem JobState.isEnded_standing (st : JobState) :
    st.standing.isEnded = st.isTerminal := by
  cases st <;> rfl

def JobRecord.ticket (job : JobRecord) : Ticket Request where
  request := ⟨job.queue, job.spec, job.createdAt⟩
  attempts := job.attempts.toNat
  standing := job.state.standing

def MemoryStore.board (store : MemoryStore) : Board JobId Request :=
  fun id => (store.get id).map JobRecord.ticket

def WalRecord.move : WalRecord → Move JobId Request
  | .jobSubmitted id queue spec createdAt => .accept id ⟨queue, spec, createdAt⟩
  | .jobLeased id _ attempt _ => .act id (.start attempt.toNat)
  | .jobRetryScheduled id _ _ _ => .act id .retry
  | .jobCompleted id _ _ => .act id .complete
  | .jobDead id _ _ => .act id .die
  | .jobCancelled id _ => .act id .cancel

def Sys.board (X : Crates) (sys : Sys) : Board JobId Request := (replayed (sys.log X)).board

/-! ## The log as a run of the board -/

namespace MemoryStore

theorem board_apply (store : MemoryStore) (r : WalRecord) :
    (store.applyRecordForRecovery r).board =
      Function.update store.board r.jobId ((r.effect (store.get r.jobId)).map JobRecord.ticket) := by
  funext id
  rw [board, get_applyRecordForRecovery, Function.update_apply]
  split
  · rename_i hid
    rw [hid]
  · rfl

theorem UpToRequeue.board_eq {live replayed : MemoryStore} (h : UpToRequeue live replayed) :
    live.board = replayed.board := by
  funext id
  cases hget : live.get id with
  | none => rw [board, board, hget, h.get_none.mp hget]
  | some job =>
    rcases h.get_some hget with hr | ⟨hq, hr⟩
    · rw [board, board, hget, hr]
    · rw [board, board, hget, hr]
      simp [JobRecord.ticket, hq, JobState.standing]

theorem encard_openIn (config : RuntimeConfig) (store : MemoryStore) (queue : String) :
    (store.board.openIn config.rules queue).encard = store.liveIn queue := by
  have hset : store.board.openIn config.rules queue =
      ((store.keysWith fun job => job.isLive && job.queue.asStr = queue).toFinset : Set JobId) := by
    ext id
    simp only [Board.openIn, Set.mem_ofPred_eq, List.coe_toFinset, HashMap.mem_keysWith, board,
      Option.map_eq_some_iff, Bool.and_eq_true, decide_eq_true_eq]
    constructor
    · rintro ⟨_, ⟨job, hget, rfl⟩, hqueue, hopen⟩
      refine ⟨job, hget, ?_, hqueue⟩
      rw [JobRecord.ticket, JobState.isEnded_standing] at hopen
      rw [JobRecord.isLive, hopen]
      rfl
    · rintro ⟨job, hget, hlive, hqueue⟩
      refine ⟨_, ⟨job, hget, rfl⟩, hqueue, ?_⟩
      rw [JobRecord.ticket, JobState.isEnded_standing]
      rwa [JobRecord.isLive, Bool.not_eq_true'] at hlive
  rw [hset, Set.encard_coe_eq_coe_finsetCard, List.toFinset_card_of_nodup (HashMap.keysWith_nodup _ _),
    liveIn, HashMap.count_eq_length]

end MemoryStore

/-- A record that the protocol allows is a move that the rules permit. -/
theorem Allowed.step {r : WalRecord} (h : Allowed config log r) (hlegal : Legal config log) :
    Board.Step config.rules (replayed log).board r.move (replayed (log ++ [r])).board := by
  rw [replayed, replayed, MemoryStore.replay_snoc, MemoryStore.board_apply]
  have hticket : ∀ {id job}, (replayed log).get id = some job →
      (replayed log).board id = some job.ticket := by
    intro id job hjob
    rw [MemoryStore.board, hjob]
    rfl
  cases h with
  | submit hfresh hcap hroom =>
    refine .accept ?_ hcap ?_
    · rw [MemoryStore.board, hfresh]
      rfl
    · rw [MemoryStore.encard_openIn]
      exact_mod_cast hroom
  | @lease id job leaseId leasedAt hjob hstate =>
    have htried := (hlegal.numbered id).tried job hjob
    have hsucc := htried.attempts_succ hstate
    have hwaits : job.state.standing = .waiting := by
      rcases hstate with hstate | hstate <;> rw [hstate] <;> rfl
    have hafter : ((WalRecord.jobLeased id leaseId (job.attempts + 1) leasedAt).update job).ticket =
        job.ticket.after (.start (job.ticket.attempts + 1)) := by
      change Ticket.mk _ (job.attempts + 1).toNat _ = Ticket.mk _ (job.attempts.toNat + 1) _
      rw [hsucc]
      rfl
    simp only [WalRecord.jobId, WalRecord.move, hjob, WalRecord.effect_some, Option.map_some, hsucc,
      hafter]
    exact .act (hticket hjob) (.start hwaits (htried.left hstate))
  | retry hjob hstate _ hattempts =>
    simp only [WalRecord.jobId, hjob, WalRecord.effect_some, Option.map_some]
    refine .act (hticket hjob) (.retry ?_ (UInt32.lt_iff_toNat_lt.mp hattempts))
    rw [JobRecord.ticket, hstate]
    rfl
  | complete hjob hstate =>
    simp only [WalRecord.jobId, hjob, WalRecord.effect_some, Option.map_some]
    refine .act (hticket hjob) (.complete ?_)
    rw [JobRecord.ticket, hstate]
    rfl
  | die hjob hstate =>
    simp only [WalRecord.jobId, hjob, WalRecord.effect_some, Option.map_some]
    refine .act (hticket hjob) (.die ?_)
    rw [JobRecord.ticket, hstate]
    rfl
  | cancel hjob hlive =>
    simp only [WalRecord.jobId, hjob, WalRecord.effect_some, Option.map_some]
    refine .act (hticket hjob) (.cancel ?_)
    rwa [JobRecord.ticket, JobState.isEnded_standing]

theorem Legal.trace {recs : List WalRecord} (h : Legal config (log ++ recs)) :
    Trace (Board.Step config.rules) (replayed log).board (recs.map WalRecord.move)
      (replayed (log ++ recs)).board := by
  induction recs using List.reverseRecOn with
  | nil => simpa using Trace.nil
  | append_singleton recs r ih =>
    rw [← List.append_assoc] at h ⊢
    have hprev := h.initialSegment (List.prefix_append (log ++ recs) [r])
    rw [List.map_append]
    exact (ih hprev).snoc (h.last.step hprev)

/-! ## Operations -/

inductive Op.Makes : Op → Move JobId Request → Prop
  | accept {id : JobId} {queue : QueueName} {spec : JobSpec} {permit : OwnedSemaphorePermit}
      {reply : Sender} {createdAt : UnixMillis} :
      Makes (.handle (.submit queue spec permit reply)) (.accept id ⟨queue, spec, createdAt⟩)
  | submitStart {id : JobId} {queue : QueueName} {spec : JobSpec} {permit : OwnedSemaphorePermit}
      {reply : Sender} {attempt : Nat} :
      Makes (.handle (.submit queue spec permit reply)) (.act id (.start attempt))
  | fetch {id : JobId} {reply : Sender} {attempt : Nat} :
      Makes (.handle (.fetchWork reply)) (.act id (.start attempt))
  | dispatch {id : JobId} {attempt : Nat} : Makes .tryDispatchParkedWorkers (.act id (.start attempt))
  | cancel {id : JobId} {reply : Sender} : Makes (.handle (.cancel id reply)) (.act id .cancel)
  | complete {id : JobId} {l : LeaseId} :
      Makes (.handle (.workerOutcome id l .success)) (.act id .complete)
  | fatal {id : JobId} {l : LeaseId} : Makes (.handle (.workerOutcome id l .fatal)) (.act id .die)
  | retry {id : JobId} {l : LeaseId} {outcome : WorkerOutcome}
      (ho : outcome = .retryable ∨ outcome = .panic) :
      Makes (.handle (.workerOutcome id l outcome)) (.act id .retry)
  | exhausted {id : JobId} {l : LeaseId} {outcome : WorkerOutcome}
      (ho : outcome = .retryable ∨ outcome = .panic) :
      Makes (.handle (.workerOutcome id l outcome)) (.act id .die)
  | timeoutRetry {id : JobId} : Makes .checkLeaseTimeouts (.act id .retry)
  | timeoutDead {id : JobId} : Makes .checkLeaseTimeouts (.act id .die)

theorem Op.Persists.makes {op : Op} {s₀ s : Coordinator} {r : WalRecord}
    (h : op.Persists s₀ s r) : op.Makes r.move := by
  cases h with
  | timeoutRetry => exact .timeoutRetry
  | timeoutDead => exact .timeoutDead
  | dispatch => exact .dispatch
  | submit => exact .accept
  | submitLease => exact .submitStart
  | fetch => exact .fetch
  | cancel => exact .cancel
  | complete => exact .complete
  | fatal => exact .fatal
  | retry ho => exact .retry ho
  | exhausted ho => exact .exhausted ho

structure Grounds where
  /-- whether the process is shutting down -/
  down : Bool
  /-- the persist calls that failed, with their errors -/
  nacked : List (WalRecord × WalError)

inductive Refuses (config : RuntimeConfig) (g : Grounds) (queue : QueueName) (spec : JobSpec) :
    Error → Prop
  | queueNotFound (h : config.capacity queue.asStr = none) :
      Refuses config g queue spec (.queueNotFound queue.asStr)
  | payloadTooLarge (h : maxPayloadSize < spec.payload.length) :
      Refuses config g queue spec (.payloadTooLarge spec.payload.length maxPayloadSize)
  | shuttingDown (h : g.down = true) : Refuses config g queue spec .shuttingDown
  | storage {id : JobId} {createdAt : UnixMillis} {e : WalError}
      (h : (.jobSubmitted id queue spec createdAt, e) ∈ g.nacked) :
      Refuses config g queue spec (.storage e)

/-- The answer to the command is right on the board `b` that the moves have led to. -/
inductive Truthful (config : RuntimeConfig) (g : Grounds) (b : Board JobId Request) :
    Command → List (Move JobId Request) → Except Error JobRecord → Prop
  | submitted {queue : QueueName} {spec : JobSpec} {permit : OwnedSemaphorePermit} {reply : Sender}
      {job : JobRecord} (hqueue : job.queue = queue) (hspec : job.spec = spec)
      (hjob : b job.id = some job.ticket) :
      Truthful config g b (.submit queue spec permit reply)
        [.accept job.id ⟨queue, spec, job.createdAt⟩] (.ok job)
  | refused {queue : QueueName} {spec : JobSpec} {permit : OwnedSemaphorePermit} {reply : Sender}
      {e : Error} (h : Refuses config g queue spec e) :
      Truthful config g b (.submit queue spec permit reply) [] (.error e)
  | shown {id : JobId} {reply : Sender} {job : JobRecord} (hid : job.id = id)
      (hjob : b id = some job.ticket) : Truthful config g b (.status id reply) [] (.ok job)
  | unknown {id : JobId} {reply : Sender} (h : b id = none) :
      Truthful config g b (.status id reply) [] (.error (.jobNotFound id))
  | cancelled {id : JobId} {reply : Sender} {job : JobRecord} (hid : job.id = id)
      (hjob : b id = some job.ticket) :
      Truthful config g b (.cancel id reply) [.act id .cancel] (.ok job)
  | noSuchJob {id : JobId} {reply : Sender} (h : b id = none) :
      Truthful config g b (.cancel id reply) [] (.error (.jobNotFound id))
  | ended {id : JobId} {reply : Sender} {t : Ticket Request} {st : JobState} (ht : b id = some t)
      (hst : t.standing = st.standing) (hended : t.standing.isEnded) :
      Truthful config g b (.cancel id reply) [] (.error (.invalidTransition st .cancelled))
  | notLogged {id : JobId} {reply : Sender} {t : Ticket Request} {cancelledAt : UnixMillis}
      {e : WalError} (ht : b id = some t) (hopen : t.standing.isEnded = false)
      (h : (.jobCancelled id cancelledAt, e) ∈ g.nacked) :
      Truthful config g b (.cancel id reply) [] (.error (.storage e))

theorem Truthful.mono {down : Bool} {nacked nacked' : List (WalRecord × WalError)}
    {b : Board JobId Request} {cmd : Command} {made : List (Move JobId Request)}
    {result : Except Error JobRecord} (hsub : nacked ⊆ nacked')
    (h : Truthful config ⟨down, nacked⟩ b cmd made result) :
    Truthful config ⟨down, nacked'⟩ b cmd made result := by
  cases h with
  | submitted hqueue hspec hjob => exact .submitted hqueue hspec hjob
  | refused h =>
    cases h with
    | queueNotFound h => exact .refused (.queueNotFound h)
    | payloadTooLarge h => exact .refused (.payloadTooLarge h)
    | shuttingDown h => exact .refused (.shuttingDown h)
    | storage h => exact .refused (.storage (hsub h))
  | shown hid hjob => exact .shown hid hjob
  | unknown h => exact .unknown h
  | cancelled hid hjob => exact .cancelled hid hjob
  | noSuchJob h => exact .noSuchJob h
  | ended ht hst hended => exact .ended ht hst hended
  | notLogged ht hopen h => exact .notLogged ht hopen (hsub h)

namespace Coordinator

variable {env : Env} {base : List WalRecord} {past : List LeaseId} {s₀ s s' : Coordinator}

theorem Sound.board_eq (h : Sound X config base past s₀ s) :
    s.store.board = (replayed (base ++ s.acked)).board := h.logged.store.board_eq

theorem Sound.trace (h : Sound X config base past s₀ s) (hsteps : Steps X Fault.Clean s s')
    {recs : List WalRecord} (hacked : s'.acked = s.acked ++ recs) :
    Trace (Board.Step config.rules) s.store.board (recs.map WalRecord.move) s'.store.board := by
  have h' := h.steps hsteps
  have hlegal := h'.logged.legal
  rw [h.board_eq, h'.board_eq]
  rw [hacked, ← List.append_assoc] at hlegal ⊢
  exact hlegal.trace

theorem Step.acked_cases {P : Fault → Prop} (h : Step X P s s') :
    s'.acked = s.acked ∨ ∃ r, s'.acked = s.acked ++ [r] := by
  cases h with
  | quiet h => exact Or.inl (by rw [acked, h.journal, acked])
  | ack h _ _ tick => exact Or.inr ⟨_, h.acked_ack _ tick⟩
  | nack h _ _ tick => exact Or.inl (h.acked_nack _ _ tick)
  | requeue | dropEntry | acquire | returnPermit => exact Or.inl rfl
  | forceShutdown => exact Or.inl (acked_forceShutdown s)

theorem StepsOf.acked_all {P : Fault → Prop} {A : Coordinator → WalRecord → Prop}
    (h : StepsOf X P A s s') :
    ∃ recs, s'.acked = s.acked ++ recs ∧ ∀ r ∈ recs, ∃ s₁, A s₁ r := by
  induction h with
  | refl => exact ⟨[], (List.append_nil _).symm, fun _ hr => nomatch hr⟩
  | tail _ hstep ih =>
    obtain ⟨recs, hrecs, hall⟩ := ih
    rcases hstep.step.acked_cases with hsame | ⟨r, hr⟩
    · exact ⟨recs, hsame.trans hrecs, hall⟩
    · refine ⟨recs ++ [r], by rw [hr, hrecs, List.append_assoc], fun r' hr' => ?_⟩
      rcases List.mem_append.mp hr' with hr' | hr'
      · exact hall r' hr'
      · rw [List.mem_singleton.mp hr']
        exact ⟨_, hstep.allowed r (Or.inl hr)⟩

def grounds (s s' : Coordinator) : Grounds :=
  ⟨s.shuttingDown, s'.nacked.drop s.nacked.length⟩

theorem grounds_of_append {l : List (WalRecord × WalError)} (h : s'.nacked = s.nacked ++ l) :
    s.grounds s' = ⟨s.shuttingDown, l⟩ := by
  rw [grounds, h, List.drop_left]

theorem truthful_later {s₁ : Coordinator} {b : Board JobId Request} {cmd : Command}
    {made : List (Move JobId Request)} {result : Except Error JobRecord}
    (h : Truthful config (s.grounds s₁) b cmd made result) (hsteps : Steps X Fault.Clean s₁ s') :
    Truthful config (s.grounds s') b cmd made result := by
  obtain ⟨l, hl⟩ := (Steps.journal_prefix hsteps).filterMap Event.asNacked
  refine h.mono ?_
  change _ ⊆ (List.filterMap _ _).drop _
  rw [← hl]
  exact ((List.sublist_append_left _ l).drop _).subset

/-- The result that a program has come to for the command is right in a state `s₁` on its way;
from there on it has only granted leases. -/
def AnswersIn (X : Crates) (config : RuntimeConfig) (cmd : Command) (s : Coordinator)
    (result : Except Error JobRecord) (s' : Coordinator) : Prop :=
  ∃ s₁ made leased, Steps X Fault.Clean s s₁ ∧ Steps X Fault.Clean s₁ s' ∧
    s₁.acked = s.acked ++ made ∧ s'.acked = s₁.acked ++ leased ∧
    Truthful config (s.grounds s₁) s₁.store.board cmd (made.map WalRecord.move) result ∧
    ∀ r ∈ leased, r.grant?.isSome

namespace AnswersIn

variable {cmd : Command} {result : Except Error JobRecord} {s₁ : Coordinator}

theorem here (made : List WalRecord) (hsteps : Steps X Fault.Clean s s')
    (hacked : s'.acked = s.acked ++ made)
    (h : Truthful config (s.grounds s') s'.store.board cmd (made.map WalRecord.move) result) :
    AnswersIn X config cmd s result s' :=
  ⟨s', made, [], hsteps, .refl, hacked, (List.append_nil _).symm, h, fun _ hr => nomatch hr⟩

theorem after (h : AnswersIn X config cmd s result s₁) (hsteps : Steps X Fault.Clean s₁ s')
    (hacked : s'.acked = s₁.acked) : AnswersIn X config cmd s result s' := by
  obtain ⟨s₂, made, leased, hsteps₁, hsteps₂, hmade, hleased, htrue, hall⟩ := h
  exact ⟨s₂, made, leased, hsteps₁, hsteps₂.trans hsteps, hmade, hacked.trans hleased, htrue, hall⟩

end AnswersIn

theorem mem_nacked_refuse (s : Coordinator) (r : WalRecord) (e : WalError) (st : Storage)
    (t : Nat) : (r, e) ∈ (s.grounds (s.refuse r e st t)).nacked := by
  rw [grounds_of_append (l := [(r, e)]) (by simp [nacked, refuse, Event.asNacked])]
  exact List.mem_singleton_self _

theorem board_of_get {store : MemoryStore} {id : JobId} {job : JobRecord}
    (h : store.get id = some job) : store.board id = some job.ticket := by
  rw [MemoryStore.board, h]
  rfl

theorem board_of_none {store : MemoryStore} {id : JobId} (h : store.get id = none) :
    store.board id = none := by
  rw [MemoryStore.board, h]
  rfl

theorem doStatus_answersIn (hs : Sound X config base past s₀ s) (id : JobId) (reply : Sender) :
    wp (doStatus id) (AnswersIn X config (.status id reply) s) (fun _ _ => True) s := by
  refine (wp_bind _ _).mpr (wp_get.mpr ?_)
  cases hjob : s.store.get id with
  | none => exact .here [] .refl (List.append_nil _).symm (.unknown (board_of_none hjob))
  | some job =>
    exact .here [] .refl (List.append_nil _).symm (.shown (hs.logged.keyed hjob) (board_of_get hjob))

theorem doCancel_answersIn (hP : ∀ t, Fault.Clean (env.fate t).fault)
    (hs : Sound X config base past s₀ s) (id : JobId) (reply : Sender) :
    wp (doCancel X env id) (AnswersIn X config (.cancel id reply) s) (fun _ _ => True) s := by
  refine (wp_bind _ _).mpr (wp_get.mpr ?_)
  cases hjob : s.store.get id with
  | none => exact .here [] .refl (List.append_nil _).symm (.noSuchJob (board_of_none hjob))
  | some job =>
    dsimp only
    split
    · rename_i hterm
      refine .here [] .refl (List.append_nil _).symm (.ended (board_of_get hjob) rfl ?_)
      rwa [JobRecord.ticket, JobState.isEnded_standing]
    rename_i hlive
    rw [Bool.not_eq_true] at hlive
    have hquiet : Step X Fault.Clean s { s with tick := s.tick + 1 } :=
      .quiet { Quiet.refl s with }
    have hoffer : ∀ cancelledAt, Offers { s with tick := s.tick + 1 }
        (.jobCancelled id cancelledAt) { s with tick := s.tick + 1 }
        (exposeCancel id job.queue.asStr job.state) := fun _ => .cancel hjob hlive
    refine (wp_bind _ _).mpr (wp_draw.mpr ((wp_bind _ _).mpr (wp_persist hP ?_ ?_
      fun _ _ _ => trivial)))
    · intro fault seq st hfault hp
      let r : WalRecord := .jobCancelled id (env.wall s.tick)
      have hget : (s.store.applyRecordForRecovery r).get id = some (r.update job) := by
        rw [MemoryStore.get_applyRecordForRecovery, if_pos (show id = r.jobId from rfl), hjob,
          WalRecord.effect_some]
      have hack := Step.ack (hoffer (env.wall s.tick)) hfault hp (s.tick + 1 + 1)
      refine (wp_bind _ _).mpr (wp_applyRecord_ok (hoffer _).applies ((wp_bind _ _).mpr
        (wp_get.mpr ((wp_bind _ _).mpr ((wp_modify _).mpr ?_)))))
      refine AnswersIn.here [r] ((Relation.ReflTransGen.single hquiet).tail hack)
        ((hoffer _).acked_ack _ _) ?_
      change Truthful config _ (exposeCancel id job.queue.asStr job.state
        (commit r st (s.tick + 1 + 1) { s with tick := s.tick + 1 })).store.board _ _
        (.ok (((s.store.applyRecordForRecovery r).get id).getD job))
      rw [(hoffer _).store_ack, hget, Option.getD_some]
      exact .cancelled (show job.id = id from hs.logged.keyed hjob) (board_of_get hget)
    · intro fault e st hfault hp
      have hnack := Step.nack (hoffer (env.wall s.tick)) hfault hp (s.tick + 1 + 1)
      refine AnswersIn.here [] ((Relation.ReflTransGen.single hquiet).tail hnack) ?_ ?_
      · rw [(hoffer _).acked_nack, List.append_nil]
        rfl
      · refine .notLogged (board_of_get hjob) ?_ (mem_nacked_refuse ..)
        rwa [JobRecord.ticket, JobState.isEnded_standing]

theorem doSubmit_answersIn (hP : ∀ t, Fault.Clean (env.fate t).fault)
    (hs : Sound X config base past s₀ s) {queue : QueueName} {permit : OwnedSemaphorePermit}
    (hfresh : ∀ t, s.store.get (env.uuid t) = none) (hpermit : permit ∈ s.inFlight)
    (hfor : permit.queue = queue.asStr) (spec : JobSpec) (reply : Sender) :
    wp (doSubmit X config env queue spec permit)
      (AnswersIn X config (.submit queue spec permit reply) s) (fun _ _ => True) s := by
  refine (wp_bind _ _).mpr (wp_get.mpr ?_)
  split
  · rename_i hnone
    refine .here [] .refl (List.append_nil _).symm (.refused (.queueNotFound ?_))
    rwa [Option.isNone_iff_eq_none, ← Option.not_isSome_iff_eq_none, hs.placement.queues,
      Option.not_isSome_iff_eq_none] at hnone
  rename_i hqueue
  rw [Option.isNone_iff_eq_none, ← ne_eq, Option.ne_none_iff_isSome] at hqueue
  split
  · rename_i hlarge
    exact .here [] .refl (List.append_nil _).symm (.refused (.payloadTooLarge hlarge))
  have hquiet : Step X Fault.Clean s { s with tick := s.tick + 1 + 1 } :=
    .quiet { Quiet.refl s with }
  have hoffer : ∀ createdAt, Offers { s with tick := s.tick + 1 + 1 }
      (.jobSubmitted (env.uuid s.tick) queue spec createdAt) { s with tick := s.tick + 1 + 1 }
      (exposeSubmit (env.uuid s.tick) queue permit) :=
    fun _ => .submit hqueue (hfresh _) hpermit hfor
  refine (wp_bind _ _).mpr (wp_draw.mpr ((wp_bind _ _).mpr (wp_draw.mpr ?_)))
  refine (wp_bind _ _).mpr (wp_persist hP ?_ ?_ fun _ _ _ => trivial)
  · intro fault seq st hfault hp
    let id := env.uuid s.tick
    let job := JobRecord.new id queue spec (env.wall (s.tick + 1))
    let r : WalRecord := .jobSubmitted id queue spec (env.wall (s.tick + 1))
    have hget : (s.store.applyRecordForRecovery r).get id = some job := by
      rw [MemoryStore.get_applyRecordForRecovery, if_pos (show id = r.jobId from rfl)]
      rfl
    have hack := Step.ack (hoffer (env.wall (s.tick + 1))) hfault hp (s.tick + 1 + 1 + 1)
    refine (wp_bind _ _).mpr (wp_applyRecord_ok (hoffer _).applies ((wp_bind _ _).mpr (wp_get.mpr
      ((wp_bind _ _).mpr ((wp_modify _).mpr ((wp_bind _ _).mpr ?_))))))
    refine wp_mono (tryDispatchParkedWorkers_logs hP
      (A := fun _ r => r.grant?.isSome) fun _ _ _ _ _ _ => rfl) ?_ fun _ _ _ => trivial
    rintro _ s₂ ⟨hsteps, _⟩
    obtain ⟨leased, hleased, hall⟩ := StepsOf.acked_all hsteps
    refine ⟨_, [r], leased, (Relation.ReflTransGen.single hquiet).tail hack, StepsOf.steps hsteps,
      (hoffer _).acked_ack _ _, hleased, ?_, fun r hr => (hall r hr).elim fun _ h => h⟩
    change Truthful config _ (s.store.applyRecordForRecovery r).board _ _
      (.ok (((s.store.applyRecordForRecovery r).get id).getD job))
    rw [hget, Option.getD_some]
    have hjob : (s.store.applyRecordForRecovery r).board job.id = some job.ticket := board_of_get hget
    exact .submitted rfl rfl hjob
  · intro fault e st hfault hp
    have hnack := Step.nack (hoffer (env.wall (s.tick + 1))) hfault hp (s.tick + 1 + 1 + 1)
    refine AnswersIn.here [] ((Relation.ReflTransGen.single hquiet).tail hnack) ?_
      (.refused (.storage (mem_nacked_refuse ..)))
    rw [(hoffer _).acked_nack, List.append_nil]
    rfl

theorem handle_answersIn (hs : Sound X config base past s₀ s) {cmd : Command}
    (h : (Op.handle cmd).Enabled Fault.Clean env s) {reply : Sender}
    (hcmd : cmd.awaits = some (reply, .job)) :
    wp (handle X config env cmd) (fun _ s' => ∃ result,
      s'.sent.getLast? = some (reply, .job result) ∧ AnswersIn X config cmd s result s')
      (fun _ _ => True) s := by
  have hsent : ∀ {result} {s₁ : Coordinator}, AnswersIn X config cmd s result s₁ →
      ∃ result', (send reply (.job result) s₁).sent.getLast? = some (reply, .job result') ∧
        AnswersIn X config cmd s result' (send reply (.job result) s₁) := by
    intro result s₁ hanswers
    have hquiet : Step X Fault.Clean s₁ (send reply (.job result) s₁) :=
      .quiet { Quiet.refl s₁ with }
    exact ⟨result, List.getLast?_concat, hanswers.after (.single hquiet) rfl⟩
  cases cmd with
  | stats | fetchWork | workerOutcome | shutdown => cases hcmd
  | status id =>
    cases hcmd
    exact (wp_bind _ _).mpr (wp_mono (doStatus_answersIn hs id reply) (fun _ _ ha => hsent ha)
      fun _ _ _ => trivial)
  | cancel id =>
    cases hcmd
    exact (wp_bind _ _).mpr (wp_mono (doCancel_answersIn h.fault hs id reply)
      (fun _ _ ha => hsent ha) fun _ _ _ => trivial)
  | submit queue spec permit =>
    cases hcmd
    obtain ⟨hpermit, hfor⟩ := h.holds
    have hsubmit : wp (submitResult X config env queue spec permit) (fun result s₁ =>
        AnswersIn X config (.submit queue spec permit reply) s result s₁ ∧
          ((∃ e, result = .error e) → permit ∈ s₁.inFlight)) (fun _ _ => True) s := by
      refine (wp_bind _ _).mpr (wp_get.mpr ?_)
      split
      · rename_i hdown
        exact ⟨.here [] .refl (List.append_nil _).symm (.refused (.shuttingDown hdown)),
          fun _ => hpermit⟩
      · refine wp_intro (fun result s₁ hrun => ⟨?_, ?_⟩) fun _ _ _ => trivial
        · exact wp_ok (doSubmit_answersIn h.fault hs h.fresh hpermit hfor spec reply) hrun
        · exact (wp_ok (doSubmit_logs h.fault h.fresh hpermit hfor spec (A := fun _ _ => True)
            (fun _ _ _ => trivial) fun _ _ _ _ _ => trivial) hrun).2
    refine (wp_bind _ _).mpr (wp_mono hsubmit ?_ fun _ _ _ => trivial)
    rintro result s₁ ⟨hanswers, hkept⟩
    refine (wp_bind _ _).mpr ((wp_modify _).mpr ((wp_modify _).mpr ?_))
    cases result with
    | ok job => exact hsent hanswers
    | error e => exact hsent (hanswers.after (.single (.returnPermit (hkept ⟨e, rfl⟩))) rfl)

/-! ### Jobs that are handed out -/

def Ticketed (b : Board JobId Request) (context : JobContext) : Prop :=
  ∃ t createdAt, b context.id = some t ∧
    t.request = ⟨context.queue, ⟨context.payload, context.maxAttempts⟩, createdAt⟩

theorem Ticketed.trace {b b' : Board JobId Request} {moves : List (Move JobId Request)}
    {context : JobContext} (h : Ticketed b context)
    (htrace : Trace (Board.Step config.rules) b moves b') :
    Ticketed b' context := by
  obtain ⟨t, createdAt, ht, hrequest⟩ := h
  obtain ⟨t', ht', hleads⟩ := Board.leads_of_trace htrace ht
  exact ⟨t', createdAt, ht', hleads.request.trans hrequest⟩

theorem Sound.ticketed (h : Sound X config base past s₀ s) (hsteps : Steps X Fault.Clean s s')
    {context : JobContext} (hticketed : Ticketed s.store.board context) :
    Ticketed s'.store.board context := by
  obtain ⟨recs, hacked⟩ := Steps.acked_append hsteps
  exact hticketed.trace (h.trace hsteps hacked)

structure Deals (s s' : Coordinator) (new : List (Sender × LeasedJob)) : Prop where
  handed : s'.handed = s.handed ++ new
  granted : s'.granted = s.granted ++ new.map fun p => p.2.grant
  ticketed : ∀ p ∈ new, Ticketed s'.store.board p.2.context

theorem handsOut_deals {R : Sender → Prop} (hs : Sound X config base past s₀ s)
    (h : Relation.ReflTransGen (HandsOut X R) s s') :
    Steps X Fault.Clean s s' ∧ ∃ new, Deals s s' new := by
  induction h with
  | refl =>
    exact ⟨.refl, [], (List.append_nil _).symm, (List.append_nil _).symm, fun _ hp => nomatch hp⟩
  | tail _ hstep ih =>
    obtain ⟨hsteps₁, new, hnew⟩ := ih
    have hs₁ := hs.steps hsteps₁
    cases hstep with
    | nothing hsteps h hhanded =>
      refine ⟨hsteps₁.trans hsteps, new, hhanded.trans hnew.handed, ?_, fun p hp =>
        hs₁.ticketed hsteps (hnew.ticketed p hp)⟩
      cases h with
      | nothing _ _ _ hgranted => exact hgranted.trans hnew.granted
    | hand hsteps reply job _ h hhanded =>
      cases h with
      | lease _ record _ _ _ _ _ hgranted hrecord hcontext =>
        refine ⟨hsteps₁.trans hsteps, new ++ [(reply, job)], ?_, ?_, fun p hp => ?_⟩
        · rw [hhanded, hnew.handed, List.append_assoc]
        · rw [hgranted, hnew.granted, List.append_assoc, List.map_append]
          rfl
        · rcases List.mem_append.mp hp with hp | hp
          · exact hs₁.ticketed hsteps (hnew.ticketed p hp)
          · rw [List.mem_singleton.mp hp]
            refine ⟨record.ticket, record.createdAt, board_of_get hrecord, ?_⟩
            rw [hcontext]
            rfl

theorem grant?_of_persists {op : Op} (hop : op.leases = false) {s₁ : Coordinator} {r : WalRecord}
    (h : op.Persists s₁ s r) : r.grant? = none := by
  cases h with
  | dispatch | submitLease | fetch => cases hop
  | timeoutRetry | timeoutDead | submit | cancel | complete | fatal | retry | exhausted => rfl

theorem exec_deals (hs : Sound X config base past s₀ s) (hidle : Idle s) {op : Op}
    (henabled : op.Enabled Fault.Clean env s) (h : exec X config env op s = .ok () s') :
    ∃ new, Deals s s' new := by
  cases hop : op.leases with
  | true =>
    have honly := exec_handsOut (R := fun _ => True) henabled.fault hs hop henabled
      (fun _ _ _ => trivial) fun _ _ _ => trivial
    exact (handsOut_deals hs (wp_ok honly h).1).2
  | false =>
    obtain ⟨recs, hacked, hall⟩ :=
      StepsOf.acked_all (wp_ok (exec_logs hs.placement henabled) h).1
    refine ⟨[], ?_, ?_, fun _ hp => nomatch hp⟩
    · rw [(exec_withdraws hidle hop h).1.handed, List.append_nil]
    · have hnone : recs.filterMap WalRecord.grant? = [] :=
        List.filterMap_eq_nil_iff.mpr fun r hr => (hall r hr).elim fun _ => grant?_of_persists hop
      rw [granted, hacked, List.filterMap_append, hnone]
      rfl

end Coordinator

theorem WalRecord.started?_move (r : WalRecord) :
    r.move.started? = r.grant?.map fun g => (g.1, g.2.2.toNat) := by
  cases r <;> rfl

/-- Every operation of a running process is a sequence of moves of its kind on the board that
its memory shows.  Attempts are started in the order in which their jobs are handed out, once
for each, and a handler is told what the client asked for.  The answer to a client is sent last
and is right on the board between two of the moves; after it, attempts are started at most. -/
theorem operations_refine_board (hX : X.Lawful) (hC : X.Compact) {past : List Event}
    {s₀ s s' : Coordinator} (h : Reachable X Fault.Clean config (.up past s₀ s)) {op : Op}
    {env : Env} (henabled : op.Enabled Fault.Clean env s)
    (hexec : exec X config env op s = .ok () s') :
    ∃ moves new, Trace (Board.Step config.rules) s.store.board moves s'.store.board ∧
      (∀ m ∈ moves, op.Makes m) ∧ s'.handed = s.handed ++ new ∧
      moves.filterMap Move.started? =
        new.map (fun p => (p.2.context.id, p.2.context.attempt.toNat)) ∧
      (∀ p ∈ new, Ticketed s'.store.board p.2.context) ∧
      ∀ cmd reply, op = .handle cmd → cmd.awaits = some (reply, .job) →
        ∃ result made leased b, s'.sent.getLast? = some (reply, .job result) ∧
          moves = made ++ leased ∧ Trace (Board.Step config.rules) s.store.board made b ∧
          Truthful config (s.grounds s') b cmd made result ∧
          Trace (Board.Step config.rules) b leased s'.store.board ∧
          ∀ m ∈ leased, m.started?.isSome := by
  obtain ⟨base, _, hs, _⟩ := h.atLog hX hC
  obtain ⟨hstarted, hrun⟩ := h.started hX hC
  have hsteps := (wp_ok (exec_logs hs.placement henabled) hexec).1
  obtain ⟨recs, hacked, hall⟩ := StepsOf.acked_all hsteps
  obtain ⟨new, hnew⟩ := exec_deals hs (hstarted.idle.run hrun) henabled hexec
  refine ⟨recs.map WalRecord.move, new, hs.trace (StepsOf.steps hsteps) hacked, ?_, hnew.handed, ?_,
    hnew.ticketed, ?_⟩
  · intro m hm
    obtain ⟨r, hr, rfl⟩ := List.mem_map.mp hm
    obtain ⟨_, hpersists⟩ := hall r hr
    exact hpersists.makes
  · have hgranted : recs.filterMap WalRecord.grant? = new.map fun p => p.2.grant := by
      have hboth := hnew.granted
      rwa [granted, hacked, List.filterMap_append, granted, List.append_cancel_left_eq] at hboth
    have hstarted : Move.started? ∘ WalRecord.move =
        fun r => r.grant?.map fun g => (g.1, g.2.2.toNat) := funext WalRecord.started?_move
    rw [List.filterMap_map, hstarted, ← List.map_filterMap, hgranted, List.map_map]
    rfl
  · rintro cmd reply rfl hcmd
    obtain ⟨result, hlast, s₁, made, leased, hsteps₁, hsteps₂, hmade, hleased, htrue, hgrants⟩ :=
      wp_ok (handle_answersIn hs henabled hcmd) hexec
    refine ⟨result, made.map WalRecord.move, leased.map WalRecord.move, s₁.store.board, hlast, ?_,
      hs.trace hsteps₁ hmade, truthful_later htrue hsteps₂,
      (hs.steps hsteps₁).trace hsteps₂ hleased, fun m hm => ?_⟩
    · rw [hleased, hmade, List.append_assoc, List.append_cancel_left_eq] at hacked
      rw [← hacked, List.map_append]
    · obtain ⟨r, hr, rfl⟩ := List.mem_map.mp hm
      rw [WalRecord.started?_move, Option.isSome_map]
      exact hgrants r hr

theorem mailAcquired_submits : (Op.handle (.submit ⟨"mail"⟩ ⟨[1, 2], 3⟩ ⟨"mail"⟩ 0)).Enabled
    Fault.Clean (mailEnv ⟨1⟩ .none) mailAcquired :=
  ⟨rfl, ⟨by decide, rfl⟩, fun _ => trivial, fun _ => rfl⟩

/-- The job of the only queue is admitted, and its client is told so. -/
theorem operations_refine_board_submitted :
    ∃ made leased b, Trace (Board.Step mailConfig.rules) mailAcquired.store.board made b ∧
      Truthful mailConfig ⟨false, []⟩ b (.submit ⟨"mail"⟩ ⟨[1, 2], 3⟩ ⟨"mail"⟩ 0) made
        (.ok ⟨⟨1⟩, ⟨"mail"⟩, ⟨[1, 2], 3⟩, .queued, 0, ⟨0⟩⟩) ∧
      Trace (Board.Step mailConfig.rules) b leased mailSubmitted.store.board := by
  have hreach := (mailStart_reachable Fault.Clean).run
    (Relation.ReflTransGen.single (mailAcquired_step Fault.Clean))
  obtain ⟨moves, new, _, _, _, _, _, hanswer⟩ := operations_refine_board Postcard.crates_lawful
    Postcard.crates_compact hreach mailAcquired_submits rfl
  obtain ⟨result, made, leased, b, hlast, _, hmade, htrue, hleased, _⟩ := hanswer _ _ rfl rfl
  have hsent : mailSubmitted.sent.getLast? =
      some (0, .job (.ok ⟨⟨1⟩, ⟨"mail"⟩, ⟨[1, 2], 3⟩, .queued, 0, ⟨0⟩⟩)) := rfl
  cases hsent.symm.trans hlast
  exact ⟨made, leased, b, hmade, htrue, hleased⟩

/-! ## The system -/

theorem Reachable.board_eq (hX : X.Lawful) (hC : X.Compact) {past : List Event}
    {s₀ s : Coordinator} (h : Reachable X Fault.Clean config (.up past s₀ s)) :
    s.store.board = (Sys.up past s₀ s).board X := by
  obtain ⟨base, hlog, hs, _⟩ := h.atLog hX hC
  rw [Sys.board, hlog, hs.board_eq]

theorem Reachable.trace (hX : X.Lawful) (hC : X.Compact) {sys sys' : Sys}
    (h : Reachable X Fault.Clean config sys)
    (hlater : Relation.ReflTransGen (SysStep X Fault.Clean config) sys sys') :
    ∃ moves, Trace (Board.Step config.rules) (sys.board X) moves (sys'.board X) := by
  obtain ⟨recs, hat⟩ := Sys.at_steps hX hC hlater (h.atLog hX hC)
  refine ⟨recs.map WalRecord.move, ?_⟩
  rw [Sys.board, Sys.board, hat.log_eq hX]
  exact hat.legal.trace

theorem JobRecord.ticket_reconciled (config : RuntimeConfig) (job : JobRecord) :
    job.reconciled.ticket = job.ticket.recovered config.rules := by
  by_cases hstate : job.state = .running
  · have hstanding : job.ticket.standing = .running := by
      rw [ticket, hstate]
      rfl
    have hleft : job.attempts < job.spec.maxAttempts ↔
        job.ticket.attempts < config.rules.limit job.ticket.request := UInt32.lt_iff_toNat_lt
    rw [reconciled, if_pos hstate, Ticket.recovered, if_pos hstanding]
    simp only [← hleft]
    split <;> rfl
  · have hstanding : job.ticket.standing ≠ .running := by
      intro h
      apply hstate
      change job.state.standing = .running at h
      cases hst : job.state <;> rw [hst] at h <;> first | rfl | cases h
    rw [reconciled, if_neg hstate, Ticket.recovered, if_neg hstanding]

theorem JobRecord.eq_of_ticket {job job' : JobRecord} (hid : job'.id = job.id)
    (hticket : job'.ticket = job.ticket) (hterm : job.state.isTerminal) : job' = job := by
  obtain ⟨id, queue, spec, state, attempts, createdAt⟩ := job
  obtain ⟨id', queue', spec', state', attempts', createdAt'⟩ := job'
  simp only [ticket, Ticket.mk.injEq, Request.mk.injEq, UInt32.toNat_inj] at hticket
  obtain ⟨⟨rfl, rfl, rfl⟩, rfl, hstanding⟩ := hticket
  cases hid
  have hstate : state' = state := by
    cases state <;> cases state' <;> simp_all [JobState.isTerminal, JobState.standing]
  rw [hstate]

/-- The board on disk moves by the rules whatever happens to the system, and a running process
shows it.  A restart puts the requests that were being worked on back or lets them die, as
they have attempts left or not, and changes nothing else. -/
theorem system_refines_board (hX : X.Lawful) (hC : X.Compact) {sys sys' : Sys}
    (h : Reachable X Fault.Clean config sys) (hstep : SysStep X Fault.Clean config sys sys') :
    (∃ moves, Trace (Board.Step config.rules) (sys.board X) moves (sys'.board X)) ∧
      (∀ past s₀ s, sys' = .up past s₀ s → s.store.board = sys'.board X) ∧
      ∀ past file past' s₀ s, sys = .down past file → sys' = .up past' s₀ s →
        sys'.board X = (sys.board X).recovered config.rules := by
  have h' := h.tail hstep
  refine ⟨h.trace hX hC (.single hstep), ?_, ?_⟩
  · rintro past s₀ s rfl
    exact Reachable.board_eq hX hC h'
  · rintro past file past' s₀ s rfl rfl
    obtain ⟨recs, hgrows, hat⟩ := Sys.grows_step hX hC hstep (h.atLog hX hC)
    rw [Sys.board, hat.log_eq hX]
    cases hgrows with
    | boot hrec =>
      funext id
      rw [MemoryStore.board, get_replay_reconciled, Option.map_map, Board.recovered, Sys.board,
        MemoryStore.board, Option.map_map]
      exact Option.map_congr fun job _ => job.ticket_reconciled config

/-- The process dies while it logs the lease of its job; the restart puts the job back. -/
theorem system_refines_board_restarted :
    ∃ past, (Sys.up past mailLeaseRestarted mailLeaseRestarted).board Postcard.crates =
      ((Sys.down past (some mailLeaseFile)).board Postcard.crates).recovered mailConfig.rules := by
  have hup := (mailStart_reachable Fault.Clean).run
    ((Relation.ReflTransGen.single (mailAcquired_step Fault.Clean)).tail
      (mailSubmitted_step Fault.Clean trivial))
  have henabled : (Op.handle (.fetchWork 1)).Enabled Fault.Clean mailCrash mailSubmitted :=
    ⟨rfl, trivial, fun _ => trivial, fun _ => rfl⟩
  have hexec : exec Postcard.crates mailConfig mailCrash (.handle (.fetchWork 1)) mailSubmitted =
      .error (.append (.jobLeased ⟨1⟩ ⟨1⟩ 1 ⟨0⟩) mailLeaseFile)
        { mailSubmitted with tick := mailSubmitted.tick + 1 } := rfl
  obtain ⟨file, hstart⟩ : ∃ file, startWal Postcard.crates mailBoot mailConfig (some mailLeaseFile) =
      (.ok mailLeaseRestarted, file) := startWal_of_isOk mailStart (by decide +kernel)
  exact ⟨_, (system_refines_board Postcard.crates_lawful Postcard.crates_compact
    (hup.tail (.dies henabled hexec)) (.boot hstart)).2.2 _ _ _ _ _ rfl rfl⟩

theorem Truthful.ticket {g : Grounds} {b : Board JobId Request} {cmd : Command}
    {made : List (Move JobId Request)} {job : JobRecord}
    (h : Truthful config g b cmd made (.ok job)) :
    b job.id = some job.ticket := by
  cases h with
  | submitted _ _ hjob => exact hjob
  | shown hid hjob | cancelled hid hjob => rwa [hid]

/-- Once an answer has shown a job to a client, every status query finds it, however often the
system has crashed and been restarted in between: under the same id, for the same queue, with
the same specification and creation time, with no fewer attempts, and as it was if it had ended. -/
theorem answers_survive (hX : X.Lawful) (hC : X.Compact) {past past' : List Event}
    {s₀ s s' t₀ t : Coordinator} (h : Reachable X Fault.Clean config (.up past s₀ s))
    {cmd : Command} {reply : Sender} (hcmd : cmd.awaits = some (reply, .job)) {env : Env}
    (henabled : (Op.handle cmd).Enabled Fault.Clean env s)
    (hexec : exec X config env (.handle cmd) s = .ok () s') {job : JobRecord}
    (hanswer : s'.sent.getLast? = some (reply, .job (.ok job)))
    (hlater : Relation.ReflTransGen (SysStep X Fault.Clean config) (.up past s₀ s')
      (.up past' t₀ t)) (env' : Env) (reply' : Sender) :
    ∃ job' t', exec X config env' (.handle (.status job.id reply')) t = .ok () t' ∧
      t'.sent = t.sent ++ [(reply', .job (.ok job'))] ∧ job'.id = job.id ∧
      job'.queue = job.queue ∧ job'.spec = job.spec ∧ job'.createdAt = job.createdAt ∧
      job.attempts.toNat ≤ job'.attempts.toNat ∧ (job.state.isTerminal → job' = job) := by
  obtain ⟨base, _, hs, _⟩ := h.atLog hX hC
  obtain ⟨result, hlast, s₁, made, leased, hsteps₁, hsteps₂, _, hleased, htrue, _⟩ :=
    wp_ok (handle_answersIn hs henabled hcmd) hexec
  rw [hanswer] at hlast
  cases hlast
  -- the ticket is on the board of `s₁`, and from there on the board of `t`
  obtain ⟨t₁, ht₁, hleads₁⟩ :=
    Board.leads_of_trace ((hs.steps hsteps₁).trace hsteps₂ hleased) htrue.ticket
  have h' : Reachable X Fault.Clean config (.up past s₀ s') := h.tail (.proc (.exec henabled hexec))
  rw [h'.board_eq hX hC] at ht₁
  obtain ⟨moves, htrace⟩ := h'.trace hX hC hlater
  obtain ⟨t₂, ht₂, hleads₂⟩ := Board.leads_of_trace htrace ht₁
  have h'' : Reachable X Fault.Clean config (.up past' t₀ t) := h'.trans hlater
  rw [← h''.board_eq hX hC] at ht₂
  obtain ⟨job', hget, rfl⟩ := Option.map_eq_some_iff.mp ht₂
  obtain ⟨base', _, ht, _⟩ := h''.atLog hX hC
  have hid : job'.id = job.id := ht.logged.keyed hget
  have hleads := hleads₁.trans hleads₂
  have hrequest := Request.mk.inj hleads.request
  refine ⟨job', send reply' (.job (.ok job')) t, ?_, rfl, hid, hrequest.1, hrequest.2.1, hrequest.2.2,
    hleads.attempts, fun hterm => ?_⟩
  · have hstatus : doStatus job.id t = .ok (.ok job') t := by
      have hwp : wp (doStatus job.id) (fun result s => result = .ok job' ∧ s = t)
          (fun _ _ => False) t := by
        refine (wp_bind _ _).mpr (wp_get.mpr ?_)
        rw [hget]
        exact ⟨rfl, rfl⟩
      obtain ⟨result, t', hrun, rfl, rfl⟩ := wp_exists_ok hwp
      exact hrun
    change (doStatus job.id >>= fun result => modify (send reply' (.job result))) t = _
    simp only [bind, EStateM.bind, hstatus]
    rfl
  · refine JobRecord.eq_of_ticket hid (hleads.ended ?_) hterm
    rwa [JobRecord.ticket, JobState.isEnded_standing]

/-- The job that a client has submitted is found by the process that is started next. -/
theorem answers_survive_restarted :
    ∃ job t, exec Postcard.crates mailConfig (mailEnv ⟨2⟩ .none) (.handle (.status ⟨1⟩ 7))
        mailRestarted = .ok () t ∧
      t.sent = mailRestarted.sent ++ [(7, .job (.ok job))] ∧ job.id = ⟨1⟩ ∧
      job.queue = ⟨"mail"⟩ ∧ job.spec = ⟨[1, 2], 3⟩ ∧ job.createdAt = ⟨0⟩ := by
  have hreach := (mailStart_reachable Fault.Clean).run
    (Relation.ReflTransGen.single (mailAcquired_step Fault.Clean))
  obtain ⟨file, hstart⟩ := startWal_mailRestarted
  obtain ⟨job, t, hexec, hsent, hid, hqueue, hspec, hcreated, _⟩ :=
    answers_survive Postcard.crates_lawful Postcard.crates_compact hreach rfl mailAcquired_submits rfl
      (show mailSubmitted.sent.getLast? =
        some (0, .job (.ok ⟨⟨1⟩, ⟨"mail"⟩, ⟨[1, 2], 3⟩, .queued, 0, ⟨0⟩⟩)) from rfl)
      ((Relation.ReflTransGen.single .stop).tail (.boot hstart)) (mailEnv ⟨2⟩ .none) 7
  exact ⟨job, t, hexec, hsent, hid, hqueue, hspec, hcreated⟩

end DurableQueue
