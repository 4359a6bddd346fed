import DurableQueue.Defs.Shutdown
import DurableQueue.Defs.Worker
import DurableQueue.Defs.Coordinator.Acts

/-! The one-shot reply channels: which command is answered, and how often. -/

namespace DurableQueue

inductive Reply.Kind
  | job | stats | work | done
  deriving DecidableEq

def Reply.kind : Reply → Kind
  | .job _ => .job
  | .stats _ => .stats
  | .work _ => .work
  | .done => .done

def Command.awaits : Command → Option (Sender × Reply.Kind)
  | .submit _ _ _ reply | .status _ reply | .cancel _ reply => some (reply, .job)
  | .stats reply => some (reply, .stats)
  | .fetchWork reply => some (reply, .work)
  | .shutdown reply => some (reply, .done)
  | .workerOutcome .. => none

def Op.awaits : Op → Option (Sender × Reply.Kind)
  | .handle cmd => cmd.awaits
  | _ => none

def Op.command? : Op → Option Command
  | .handle cmd => some cmd
  | _ => none

def Op.Deals : Op → Coordinator.Dealing → Prop
  | .handle (.submit ..) => fun d => d = .grant ∨ d = .take
  | .tryDispatchParkedWorkers | .handle (.fetchWork _) => (.grant = ·)
  | .handle (.workerOutcome ..) => (.settle = ·)
  | .checkLeaseTimeouts | .handle (.cancel ..) => (.cancel = ·)
  | .checkExit => fun d => d = .cancel ∨ d = .leave
  | .hangUp => (.leave = ·)
  | .processDueRetries | .handle (.status ..) | .handle (.stats _) | .handle (.shutdown _) =>
    fun _ => False

namespace Coordinator

variable {X : Crates} {P : Fault → Prop} {config : RuntimeConfig} {clock : Nat → Instant}
  {D : Dealing → Prop} {env : Env} {s₀ s s' : Coordinator} {cmds : List Command}

inductive Receives (config : RuntimeConfig) (clock : Nat → Instant) (s : Coordinator) :
    Option (Sender × Reply.Kind) → Coordinator → Prop
  | nothing : Receives config clock s none s
  | answer (reply : Sender) (msg : Reply) :
      Receives config clock s (some (reply, msg.kind)) (send reply msg s)
  | park (reply : Sender) (h : s.shuttingDown = false) :
      Receives config clock s (some (reply, .work))
        { s with parkedWorkers := s.parkedWorkers ++ [reply] }
  | keep (reply : Sender) (h : s.shuttingDown = true) (hreply : s.shutdownReply = none) :
      Receives config clock s (some (reply, .done)) { s with
        tick := s.tick + 1
        shutdownDeadline := some ((clock s.tick).add config.shutdownTimeout)
        shutdownReply := some reply }

def ActsThenReceives (config : RuntimeConfig) (clock : Nat → Instant) (D : Dealing → Prop)
    (m : CoordM Unit) (awaits : Option (Sender × Reply.Kind)) (s : Coordinator) : Prop :=
  wp m (fun _ s' => ∃ s₁, Acts config clock D s s₁ ∧ Receives config clock s₁ awaits s')
    (fun _ _ => True) s

theorem ActsOnly.receives {m : CoordM Unit} (h : ActsOnly config clock D m s s) :
    ActsThenReceives config clock D m none s :=
  wp_mono h (fun _ s' hs' => ⟨s', hs'.1, .nothing⟩) fun _ _ _ => trivial

theorem ActsOnly.answers {α : Type} {m : CoordM α} {reply : Sender} {kind : Reply.Kind}
    (msg : α → Reply) (h : ActsOnly config clock D m s s) (hkind : ∀ a, (msg a).kind = kind) :
    ActsThenReceives config clock D (do let a ← m; modify (send reply (msg a)))
      (some (reply, kind)) s := by
  refine (wp_bind _ _).mpr (wp_mono h (fun a s₁ hs₁ => ?_) fun _ _ _ => trivial)
  refine ⟨s₁, hs₁.1, ?_⟩
  rw [← hkind a]
  exact .answer reply (msg a)

theorem doStatus_acts (id : JobId) : ActsOnly config clock D (doStatus id) s s := by
  refine .get_bind ?_
  split <;> exact .of_pure _

theorem doFetchWork_receives (hD : D .grant) (reply : Sender) :
    ActsThenReceives config env.instant D (doFetchWork X config env reply)
      (some (reply, .work)) s := by
  refine (wp_bind _ _).mpr (wp_get.mpr ?_)
  split
  · exact ⟨s, .refl, .answer reply (.work none)⟩
  · rename_i hup
    refine (wp_bind _ _).mpr (wp_intro (fun found s₁ h₁ => ?_) fun _ _ _ => trivial)
    have hacts := (wp_ok (tryLeaseJob_acts hD) h₁).1
    cases found with
    | some job => exact ⟨s₁, hacts, .answer reply (.work (some job))⟩
    | none =>
      refine ⟨s₁, hacts, .park reply ?_⟩
      have hsame : s₁.shuttingDown = s.shuttingDown :=
        congrArg Control.shuttingDown (tryLeaseJob_keeps.ok h₁)
      rwa [hsame, ← Bool.not_eq_true]

theorem startShutdown_receives (hidle : Idle s) (reply : Sender) :
    ActsThenReceives config env.instant D (startShutdown config env reply)
      (some (reply, .done)) s := by
  refine (wp_bind _ _).mpr (wp_get.mpr ?_)
  split
  · exact ⟨s, .refl, .answer reply .done⟩
  · rename_i hup
    rw [Bool.not_eq_true] at hup
    have hdrain : Acts config env.instant D s _ := .single (.drain hup)
    refine (wp_bind _ _).mpr ((wp_modify _).mpr ((wp_bind _ _).mpr ((wp_modify _).mpr ?_)))
    refine (wp_bind _ _).mpr (wp_get.mpr ?_)
    split
    · exact ⟨_, hdrain, .answer reply .done⟩
    · refine (wp_bind _ _).mpr (wp_nowPlus (fun _ => ?_) fun _ => trivial)
      exact ⟨_, hdrain, .keep reply rfl (hidle hup).1⟩

theorem handle_receives (hidle : Idle s) (cmd : Command) :
    ActsThenReceives config env.instant (Op.handle cmd).Deals (handle X config env cmd)
      cmd.awaits s := by
  cases cmd with
  | submit queue spec permit reply =>
    have hacts : ActsOnly config env.instant (Op.handle (.submit queue spec permit reply)).Deals
        (submitResult X config env queue spec permit) s s :=
      submitResult_acts (Or.inl rfl) (Or.inr rfl) ..
    refine (wp_bind _ _).mpr (wp_mono hacts ?_ fun _ _ _ => trivial)
    intro result s₁ hs₁
    refine (wp_bind _ _).mpr ((wp_modify _).mpr ?_)
    cases result with
    | ok job => exact ⟨s₁, hs₁.1, .answer reply (.job (.ok job))⟩
    | error e =>
      have hreturn : Silent s₁ (s₁.returnPermit permit) :=
        { Silent.refl s₁ with closedFlags := closedFlags_returnPermit permit s₁ }
      refine ⟨_, hs₁.1.tail (.silent hreturn fun h => ?_), .answer reply (.job (.error e))⟩
      exact absurd (Or.inr rfl) h
  | status id reply => exact (doStatus_acts id).answers .job fun _ => rfl
  | cancel id reply => exact (doCancel_acts rfl id).answers .job fun _ => rfl
  | stats reply => exact ⟨s, .refl, .answer reply (.stats s.doStats)⟩
  | fetchWork reply => exact doFetchWork_receives rfl reply
  | workerOutcome id leaseId outcome => exact (doWorkerOutcome_acts rfl id leaseId outcome).receives
  | shutdown reply => exact startShutdown_receives hidle reply

/-- Every operation acts on timers, leases and answers in these ways only, and deals with
leases as its kind does. -/
theorem exec_receives (hidle : Idle s) (op : Op) :
    ActsThenReceives config env.instant op.Deals (exec X config env op) op.awaits s := by
  cases op with
  | processDueRetries => exact processDueRetries_acts.receives
  | checkLeaseTimeouts => exact (checkLeaseTimeouts_acts rfl).receives
  | tryDispatchParkedWorkers => exact (tryDispatchParkedWorkers_acts rfl).receives
  | checkExit => exact (checkExit_acts (Or.inl rfl) (Or.inr rfl)).receives
  | handle cmd => exact handle_receives hidle cmd
  | hangUp => exact (ActsOnly.of_act (.exit rfl)).receives

/-! ## Requests and answers -/

def answered (s : Coordinator) : List (Sender × Reply.Kind) :=
  s.sent.map fun (reply, msg) => (reply, msg.kind)

def waiting (s : Coordinator) : List (Sender × Reply.Kind) :=
  s.parkedWorkers.map (·, .work) ++ s.shutdownReply.toList.map (·, .done)

theorem Act.answered_perm (h : Act config clock D s s') :
    (s'.answered ++ s'.waiting).Perm (s.answered ++ s.waiting) := by
  refine List.perm_iff_count.mpr fun a => ?_
  cases h with
  | silent h => rw [answered, waiting, h.sent, h.parkedWorkers, h.shutdownReply]; rfl
  | grant | removeLease | cancelLease | schedule | popRetry | exit => rfl
  | hand _ h job =>
    simp only [answered, waiting, send, h, List.map_append, List.map_cons, List.map_nil,
      Reply.kind, List.count_append, List.count_cons, List.count_nil]
    omega
  | drain h =>
    simp only [answered, waiting, closeSemaphores, List.map_append, List.map_map, List.map_nil,
      Function.comp_def, Reply.kind, List.count_append, List.count_nil]
    omega
  | completeShutdown =>
    unfold Coordinator.completeShutdown
    cases hreply : s.shutdownReply with
    | none => simp only [answered, waiting, hreply]
    | some reply =>
      simp only [answered, waiting, hreply, List.map_append, List.map_cons, List.map_nil,
        Reply.kind, Option.toList_some, Option.toList_none, List.count_append, List.count_nil]
      omega

theorem Acts.answered_perm (h : Acts config clock D s s') :
    (s'.answered ++ s'.waiting).Perm (s.answered ++ s.waiting) := by
  induction h with
  | refl => rfl
  | tail _ hact ih => exact hact.answered_perm.trans ih

theorem Receives.answered_perm {awaits : Option (Sender × Reply.Kind)}
    (h : Receives config clock s awaits s') :
    (s'.answered ++ s'.waiting).Perm (s.answered ++ s.waiting ++ awaits.toList) := by
  refine List.perm_iff_count.mpr fun a => ?_
  cases h with
  | nothing => simp
  | answer reply msg =>
    simp only [answered, waiting, send, List.map_append, List.map_cons, List.map_nil,
      Option.toList_some, List.count_append]
    omega
  | park reply h =>
    simp only [answered, waiting, List.map_append, List.map_cons, List.map_nil,
      Option.toList_some, List.count_append]
    omega
  | keep reply h hreply =>
    simp only [answered, waiting, hreply, List.map_cons, List.map_nil, Option.toList_some,
      Option.toList_none, List.count_append, List.count_nil]
    omega

/-! ## Whole runs -/

inductive Serves (X : Crates) (P : Fault → Prop) (config : RuntimeConfig) (s₀ : Coordinator) :
    List Command → Coordinator → Prop
  | start : Serves X P config s₀ [] s₀
  | acquire {cmds : List Command} {s : Coordinator} {queue : String} {sem : Semaphore}
      (h : Serves X P config s₀ cmds s) (hsem : s.semaphores.get queue = some sem)
      (havail : 0 < sem.available) (hopen : sem.closed = false) :
      Serves X P config s₀ cmds (s.acquire queue)
  | abandon {cmds : List Command} {s : Coordinator} {permit : OwnedSemaphorePermit}
      (h : Serves X P config s₀ cmds s) (hpermit : permit ∈ s.inFlight) :
      Serves X P config s₀ cmds (s.returnPermit permit)
  | exec {cmds : List Command} {s s' : Coordinator} {op : Op} {env : Env}
      (h : Serves X P config s₀ cmds s) (henabled : op.Enabled P env s)
      (hrun : Coordinator.exec X config env op s = .ok () s') :
      Serves X P config s₀ (cmds ++ op.command?.toList) s'

theorem Serves.run (h : Serves X P config s₀ cmds s) : Run X P config s₀ s := by
  induction h with
  | start => exact .refl
  | acquire _ hsem havail hopen ih => exact ih.tail (.acquire hsem havail hopen)
  | abandon _ hpermit ih => exact ih.tail (.abandon hpermit)
  | exec _ henabled hrun ih => exact ih.tail (.exec henabled hrun)

def SentHome (s : Coordinator) : Prop := s.shuttingDown = true → s.parkedWorkers = []

theorem Act.sentHome (h : Act config clock D s s') (hs : SentHome s) : SentHome s' := by
  cases h with
  | silent h => rwa [SentHome, h.shuttingDown, h.parkedWorkers]
  | grant | removeLease | cancelLease | schedule | popRetry | completeShutdown | exit => exact hs
  | hand _ h job =>
    intro hdown
    rw [hs hdown] at h
    cases h
  | drain h => exact fun _ => rfl

theorem Acts.sentHome (h : Acts config clock D s s') (hs : SentHome s) : SentHome s' := by
  induction h with
  | refl => exact hs
  | tail _ hact ih => exact hact.sentHome ih

theorem Receives.sentHome {awaits : Option (Sender × Reply.Kind)}
    (h : Receives config clock s awaits s') (hs : SentHome s) : SentHome s' := by
  cases h with
  | nothing | answer | keep => exact hs
  | park reply h =>
    intro hdown
    rw [show s.shuttingDown = true from hdown] at h
    cases h

theorem Serves.sentHome (hstart : Started X config s₀) (h : Serves X P config s₀ cmds s) :
    SentHome s := by
  induction h with
  | start => cases hstart <;> exact fun _ => rfl
  | acquire _ _ _ _ ih | abandon _ _ ih => exact ih
  | @exec _ s _ op _ h henabled hrun ih =>
    have hidle := hstart.idle.run h.run
    obtain ⟨s₁, hacts, hreceives⟩ := wp_ok (exec_receives hidle op) hrun
    exact hreceives.sentHome (hacts.sentHome ih)

theorem Serves.answered_perm (hstart : Started X config s₀) (h : Serves X P config s₀ cmds s) :
    (s.answered ++ s.waiting).Perm (cmds.filterMap Command.awaits) := by
  induction h with
  | start => cases hstart <;> rfl
  | acquire _ _ _ _ ih | abandon _ _ ih => exact ih
  | @exec cmds s _ op _ h henabled hrun ih =>
    have hidle := hstart.idle.run h.run
    obtain ⟨s₁, hacts, hreceives⟩ := wp_ok (exec_receives hidle op) hrun
    have hcmds : (cmds ++ op.command?.toList).filterMap Command.awaits =
        cmds.filterMap Command.awaits ++ op.awaits.toList := by
      cases op with
      | handle cmd =>
        rw [List.filterMap_append]
        cases h : cmd.awaits <;> simp [Op.command?, Op.awaits, h]
      | _ => simp [Op.command?, Op.awaits]
    rw [hcmds]
    exact hreceives.answered_perm.trans ((hacts.answered_perm.trans ih).append_right _)

theorem checkExit_waiting (hidle : Idle s) (hhome : SentHome s) (hloop : s.exited = false) :
    wp (checkExit env) (fun _ s' => s'.exited = true → s'.waiting = []) (fun _ _ => True) s := by
  have hnone : s.shuttingDown = true → ∀ s' : Coordinator, s'.parkedWorkers = s.parkedWorkers →
      s'.shutdownReply = none → s'.waiting = [] := by
    intro hdown s' hparked hreply
    rw [waiting, hparked, hreply, hhome hdown]
    rfl
  refine (wp_bind _ _).mpr (wp_get.mpr ?_)
  split
  · rename_i hend
    exact fun _ => hnone (Bool.and_eq_true_iff.mp hend).1 _ rfl rfl
  split
  · intro hexited
    rw [hloop] at hexited
    cases hexited
  rename_i deadline hdeadline
  refine (wp_bind _ _).mpr (wp_draw.mpr ?_)
  split
  · -- a deadline is only set by a shutdown
    have hdown : s.shuttingDown = true := by
      by_contra hup
      rw [(hidle (Bool.not_eq_true _ ▸ hup)).2.1] at hdeadline
      cases hdeadline
    intro _
    obtain ⟨leases, cancelled, sent, ls, heq, _⟩ :=
      forceShutdown_frame { s with tick := s.tick + 1 }
    exact (congrArg waiting heq).trans (hnone hdown _ rfl rfl)
  · intro hexited
    rw [hloop] at hexited
    cases hexited

/-- Every reply channel that the coordinator has received it has used once, with a message of
its type, or it still holds it: for a parked worker, or for the end of the shutdown.  When the
loop ends by itself, all of them have been used. -/
theorem replies_exactly_once (hstart : Started X config s₀) (h : Serves X P config s₀ cmds s) :
    (s.answered ++ s.waiting).Perm (cmds.filterMap Command.awaits) ∧
      ∀ env s', exec X config env .checkExit s = .ok () s' → s.exited = false →
        s'.exited = true → s'.answered.Perm (cmds.filterMap Command.awaits) := by
  have hperm := h.answered_perm hstart
  refine ⟨hperm, fun env s' hexec hloop hexited => ?_⟩
  have hwaiting := wp_ok (checkExit_waiting (hstart.idle.run h.run) (h.sentHome hstart) hloop)
    hexec hexited
  have hacts : Acts config env.instant Op.checkExit.Deals s s' :=
    (wp_ok (checkExit_acts (Or.inl rfl) (Or.inr rfl)) hexec).1
  have hlast := hacts.answered_perm.trans hperm
  rwa [hwaiting, List.append_nil] at hlast

/-- A submission, a fetch and a shutdown are received; when the job is done, all three have
been answered. -/
theorem replies_exactly_once_mail :
    mailFinished.waiting = [(7, .done)] ∧
      (after Postcard.crates mailConfig (mailEnv ⟨2⟩ .none) .checkExit mailFinished).answered.Perm
        [(0, .job), (1, .work), (7, .done)] := by
  let P : Fault → Prop := (· = .none)
  have hsubmit : (Op.handle (.submit ⟨"mail"⟩ ⟨[1, 2], 3⟩ ⟨"mail"⟩ 0)).Enabled P
      (mailEnv ⟨1⟩ .none) mailAcquired := ⟨rfl, ⟨by decide, rfl⟩, fun _ => rfl, fun _ => rfl⟩
  have hfetch : (Op.handle (.fetchWork 1)).Enabled P (mailEnv ⟨2⟩ .none) mailSubmitted :=
    ⟨rfl, trivial, fun _ => rfl, fun _ => rfl⟩
  have hstop : (Op.handle (.shutdown 7)).Enabled P (mailEnv ⟨2⟩ .none) mailLeased :=
    ⟨rfl, trivial, fun _ => rfl, fun _ => rfl⟩
  have hfinish : (Op.handle (.workerOutcome ⟨1⟩ ⟨1⟩ .success)).Enabled P (mailEnv ⟨2⟩ .none)
      mailStopping := ⟨rfl, trivial, fun _ => rfl, fun _ => rfl⟩
  have hacquired : Serves Postcard.crates P mailConfig mailStart [] mailAcquired :=
    Serves.start.acquire (show _ = some (Semaphore.new 1) from rfl) (by decide) rfl
  have hserves : Serves Postcard.crates P mailConfig mailStart _ mailFinished :=
    (((hacquired.exec hsubmit rfl).exec hfetch rfl).exec hstop rfl).exec hfinish rfl
  have hreplies := replies_exactly_once (.fresh mailBoot _ _) hserves
  exact ⟨by decide +kernel, hreplies.2 (mailEnv ⟨2⟩ .none) _ (exec_eq_after (by decide +kernel))
    (by decide +kernel) (by decide +kernel)⟩

end Coordinator

end DurableQueue
