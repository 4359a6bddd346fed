import DurableQueue.Lib.Trace
import DurableQueue.Defs.Client
import DurableQueue.Defs.Custody

/-! The permits of submissions between the semaphore and the store: a call has one in its hands,
then its command has it in the channel. -/

namespace DurableQueue

open Coordinator

variable {X : Crates} {P : Fault → Prop} {config : RuntimeConfig} {late : Bool}

def Command.permit? : Command → Option OwnedSemaphorePermit
  | .submit _ _ permit _ => some permit
  | _ => none

def Op.permit? (op : Op) : Option OwnedSemaphorePermit := op.command?.bind Command.permit?

/-! ## The coordinator's side -/

namespace Coordinator

variable {clock : Nat → Instant} {D : Dealing → Prop} {env : Env} {s s' : Coordinator}

theorem Act.inFlight_eq (hD : ¬D .take) (h : Act config clock D s s') :
    s'.inFlight = s.inFlight := by
  cases h with
  | silent _ hpermits => exact hpermits hD
  | grant | removeLease | cancelLease | schedule | popRetry | hand | drain | completeShutdown
  | exit => rfl

theorem Acts.inFlight_eq (hD : ¬D .take) (h : Acts config clock D s s') :
    s'.inFlight = s.inFlight := by
  induction h with
  | refl => rfl
  | tail _ hact ih => exact (hact.inFlight_eq hD).trans ih

theorem submitResult_inFlight (queue : QueueName) (spec : JobSpec) (permit : OwnedSemaphorePermit) :
    wp (submitResult X config env queue spec permit) (fun result s' =>
      s'.inFlight = if result.isOk then s.inFlight.erase permit else s.inFlight)
      (fun _ _ => True) s := by
  refine (wp_bind _ _).mpr (wp_get.mpr ?_)
  split
  · exact rfl
  refine (wp_bind _ _).mpr (wp_get.mpr ?_)
  split
  · exact rfl
  split
  · exact rfl
  refine (wp_bind _ _).mpr (wp_draw.mpr ((wp_bind _ _).mpr (wp_draw.mpr ?_)))
  refine (wp_bind _ _).mpr (wp_persist (P := fun _ => True) (fun _ => trivial) ?_
    (fun _ _ _ _ _ => rfl) fun _ _ _ => trivial)
  intro _ _ st _ _
  refine (wp_bind _ _).mpr (wp_applyRecord (fun store => ?_) fun _ => rfl)
  refine (wp_bind _ _).mpr (wp_get.mpr ((wp_bind _ _).mpr ((wp_modify _).mpr ?_)))
  refine (wp_bind _ _).mpr (wp_mono (tryDispatchParkedWorkers_acts (D := (.grant = ·)) rfl) ?_
    fun _ _ _ => trivial)
  intro _ s₁ hs₁
  have hkept := Acts.inFlight_eq (D := (.grant = ·)) Dealing.noConfusion hs₁.1
  exact hkept

theorem exec_inFlight (hidle : Idle s) {op : Op} (hholds : op.Holds s)
    (h : exec X config env op s = .ok () s') :
    (op.permit?.toList ++ s'.inFlight).Perm s.inFlight := by
  have hnone : op.permit? = none → ¬op.Deals .take →
      (op.permit?.toList ++ s'.inFlight).Perm s.inFlight := by
    intro hpermit hD
    obtain ⟨s₁, hacts, hreceives⟩ := wp_ok (exec_receives hidle op) h
    have hkept : s'.inFlight = s.inFlight := by
      refine Eq.trans ?_ (hacts.inFlight_eq hD)
      generalize op.awaits = awaits at hreceives
      cases hreceives <;> rfl
    rw [hkept, hpermit]
    exact .refl _
  cases op with
  | processDueRetries | checkLeaseTimeouts | tryDispatchParkedWorkers | checkExit | hangUp =>
    exact hnone rfl (by simp [Op.Deals])
  | handle cmd =>
    cases cmd with
    | status | cancel | stats | fetchWork | workerOutcome | shutdown =>
      exact hnone rfl (by simp [Op.Deals])
    | submit queue spec permit reply =>
      have herase : s'.inFlight = s.inFlight.erase permit := by
        refine wp_ok (m := handle X config env (.submit queue spec permit reply))
          (Q := fun _ s' => s'.inFlight = s.inFlight.erase permit) (E := fun _ _ => True) ?_ h
        refine (wp_bind _ _).mpr (wp_mono (submitResult_inFlight queue spec permit) ?_
          fun _ _ _ => trivial)
        intro result s₁ hs₁
        refine (wp_bind _ _).mpr ((wp_modify _).mpr ((wp_modify _).mpr ?_))
        cases result with
        | ok job => exact hs₁
        | error e => exact congrArg (List.erase · permit) hs₁
      rw [herase]
      exact (List.perm_cons_erase hholds.1).symm

theorem closedFlags_acquire (queue : String) (s : Coordinator) :
    (s.acquire queue).closedFlags = s.closedFlags := by
  funext q
  change ((s.semaphores.modify queue _).get q).map _ = _
  rw [HashMap.get_modify]
  split
  · rename_i hq
    rw [closedFlags, hq, Option.map_map]
    rfl
  · rfl

theorem quiet_closeSemaphores (s : Coordinator) : Quiet s s.closeSemaphores :=
  { Quiet.refl s with available := available_closeSemaphores s }

end Coordinator

/-! ## The clients' side -/

theorem Ask.permit?_command (ask : Ask) (reply : Sender) :
    (ask.command reply).permit? = ask.permit? := by
  cases ask <;> rfl

def Command.Matched : Command → Prop
  | .submit queue _ permit _ => permit.queue = queue.asStr
  | _ => True

theorem Ask.matched_command (ask : Ask) (reply : Sender) : (ask.command reply).Matched := by
  cases ask <;> first | rfl | trivial

theorem PoolStep.of_moved {p p' : Pool} (h : PoolStep X P config late p p')
    (hmoved : p'.workers ≠ p.workers) :
    p'.coordinator = p.coordinator ∧ ∃ sent : Option Command,
      p'.channel = p.channel ++ sent.toList ∧ ∀ cmd ∈ sent, cmd.fromWorker = true ∧
        ∀ x, cmd.awaits = some x → x.1 ∉ p.replies := by
  cases h with
  | acquire | abandon | client | coordinator => exact absurd rfl hmoved
  | check | askFails | fetched | refused | givesUp | finish | join | abort | reportFails =>
    exact ⟨rfl, none, (List.append_nil _).symm, fun _ hcmd => nomatch hcmd⟩
  | @ask k reply _ _ hnew =>
    refine ⟨rfl, some (.fetchWork reply), rfl, fun cmd hcmd => ?_⟩
    cases hcmd
    refine ⟨rfl, fun x hx => ?_⟩
    cases hx
    exact hnew
  | report =>
    refine ⟨rfl, some _, rfl, fun cmd hcmd => ?_⟩
    cases hcmd
    exact ⟨rfl, fun x hx => nomatch hx⟩

/-- The permits in flight are those that calls have in hand and those in the channel. -/
def Balanced (calls : List Call) (p : Pool) : Prop :=
  (calls.filterMap Call.permit? ++ p.channel.filterMap Command.permit?).Perm
    p.coordinator.inFlight

namespace Balanced

variable {calls : List Call} {p : Pool} {call call' : Call} {k : Nat}

theorem giveBack (hbalanced : Balanced calls p) (hcall : calls[k]? = some call)
    (hnone : call'.permit? = none) :
    Balanced (calls.set k call') (p.withCoordinator (call.giveBack p.coordinator)) := by
  unfold Call.giveBack
  cases hpermit : call.permit? with
  | none =>
    have hsame := Slots.filterMap_set_same (f := Call.permit?) hcall (hnone.trans hpermit.symm)
    exact (hsame.append_right _).trans hbalanced
  | some permit =>
    have hdrop := Slots.filterMap_set_drop (f := Call.permit?) hcall hpermit hnone
    have hfirst : (permit :: ((calls.set k call').filterMap Call.permit? ++
        p.channel.filterMap Command.permit?)).Perm p.coordinator.inFlight := by
      refine List.Perm.trans ?_ ((hdrop.append_right _).symm.trans hbalanced)
      rw [List.append_assoc]
      exact List.perm_middle.symm
    have herased := hfirst.erase permit
    rwa [List.erase_cons_head] at herased

theorem acquire {queue : String} (hbalanced : Balanced calls p)
    (hcall : calls[k]? = some call) (hnone : call.permit? = none)
    (hpermit : call'.permit? = some ⟨queue⟩) :
    Balanced (calls.set k call') (p.withCoordinator (p.coordinator.acquire queue)) := by
  have hadd := Slots.filterMap_set_add (f := Call.permit?) hcall hnone hpermit
  refine (hadd.append_right _).trans ?_
  rw [List.append_assoc]
  exact List.perm_middle.trans (hbalanced.cons _)

theorem send {ask : Ask} {reply : Sender} (hbalanced : Balanced calls p)
    (hcall : calls[k]? = some (.sending ask)) :
    Balanced (calls.set k (.awaiting ask reply)) (p.push (ask.command reply)) := by
  have hmoved := Slots.filterMap_set_perm (f := Call.permit?) (b := .awaiting ask reply) hcall
  have hchannel : (p.channel ++ [ask.command reply]).filterMap Command.permit? =
      p.channel.filterMap Command.permit? ++ ask.permit?.toList := by
    rw [List.filterMap_append, ← Ask.permit?_command ask reply]
    cases h : (ask.command reply).permit? <;> simp [h]
  rw [Balanced, Pool.push, hchannel]
  calc (calls.set k (.awaiting ask reply)).filterMap Call.permit? ++
        (p.channel.filterMap Command.permit? ++ ask.permit?.toList)
    _ |>.Perm ((calls.set k (.awaiting ask reply)).filterMap Call.permit? ++
        (ask.permit?.toList ++ p.channel.filterMap Command.permit?)) :=
      List.perm_append_comm.append_left _
    _ |>.Perm (calls.filterMap Call.permit? ++ p.channel.filterMap Command.permit?) := by
      rw [← List.append_assoc]
      refine (hmoved.append_right _).trans (.of_eq ?_)
      exact congrArg (· ++ _) (List.append_nil _)
    _ |>.Perm p.coordinator.inFlight := hbalanced

end Balanced

namespace CallStep

variable {calls : List Call} {p p' : Pool} {call call' : Call}

theorem coordinator_cases (h : CallStep config calls p call p' call') :
    p'.coordinator = p.coordinator ∨
    (∃ queue sem, p.coordinator.semaphores.get queue = some sem ∧ 0 < sem.available ∧
      sem.closed = false ∧ p'.coordinator = p.coordinator.acquire queue) ∨
    ∃ permit, call.permit? = some permit ∧ p'.coordinator = p.coordinator.returnPermit permit := by
  have hback : ∀ call : Call, call.giveBack p.coordinator = p.coordinator ∨
      ∃ permit, call.permit? = some permit ∧
        call.giveBack p.coordinator = p.coordinator.returnPermit permit := by
    intro call
    unfold Call.giveBack
    cases call.permit? with
    | none => exact Or.inl rfl
    | some permit => exact Or.inr ⟨permit, rfl, rfl⟩
  cases h with
  | acquire hsem havail hopen | tryAcquire hsem havail hopen =>
    exact Or.inr (Or.inl ⟨_, _, hsem, havail, hopen, rfl⟩)
  | sendFails | drop => exact (hback _).imp_right Or.inr
  | notFound | enter | closed | full | proceed | send | replied | lost | shutdownUnsent
  | shutdownReplied | joined | left => exact Or.inl rfl

theorem silent (h : CallStep config calls p call p' call') :
    Silent p.coordinator p'.coordinator := by
  rcases h.coordinator_cases with heq | ⟨queue, _, _, _, _, heq⟩ | ⟨permit, _, heq⟩ <;> rw [heq]
  · exact .refl _
  · exact { Silent.refl p.coordinator with closedFlags := closedFlags_acquire queue _ }
  · exact { Silent.refl p.coordinator with closedFlags := closedFlags_returnPermit permit _ }

theorem idle (h : CallStep config calls p call p' call') (hidle : Idle p.coordinator) :
    Idle p'.coordinator := by
  rcases h.coordinator_cases with heq | ⟨_, _, _, _, _, heq⟩ | ⟨_, _, heq⟩ <;> rw [heq] <;>
    exact hidle

theorem channel_cases (h : CallStep config calls p call p' call') :
    p'.channel = p.channel ∨ ∃ ask reply, call = .sending ask ∧ call' = .awaiting ask reply ∧
      p' = p.push (ask.command reply) ∧ reply ∉ p.replies := by
  cases h with
  | @send ask reply _ hnew => exact Or.inr ⟨ask, reply, rfl, rfl, rfl, hnew⟩
  | _ => exact Or.inl rfl

variable {k : Nat}

theorem balanced (h : CallStep config calls p call p' call') (hcall : calls[k]? = some call)
    (hbalanced : Balanced calls p) : Balanced (calls.set k call') p' := by
  have hsame : call'.permit? = call.permit? → Balanced (calls.set k call') p := fun hsame =>
    ((Slots.filterMap_set_same hcall hsame).append_right _).trans hbalanced
  cases h with
  | acquire | tryAcquire => exact hbalanced.acquire hcall rfl rfl
  | proceed hask =>
    refine hsame ?_
    change (_ : Option QueueName).map _ = none
    rw [hask, Option.map_none]
  | send => exact hbalanced.send hcall
  | sendFails | drop => exact hbalanced.giveBack hcall rfl
  | notFound | enter | closed | full | replied | lost | shutdownUnsent | shutdownReplied
  | joined | left => exact hsame rfl

end CallStep

namespace Service

variable {s₀ s : Coordinator} {v v' : Service} {env : Env} {op : Op} {p : Pool}

structure Backed (X : Crates) (P : Fault → Prop) (s₀ : Coordinator) (v : Service) : Prop where
  steps : Steps X P s₀ v.pool.coordinator
  idle : Idle v.pool.coordinator
  permits : Balanced v.calls v.pool
  matched : ∀ cmd ∈ v.pool.channel, cmd.Matched

@[simp] theorem coordinator_start (access : Access) (config : RuntimeConfig) (s : Coordinator) :
    (Service.start access config s).pool.coordinator = s := by
  cases access <;> rfl

@[simp] theorem channel_start (access : Access) (config : RuntimeConfig) (s : Coordinator) :
    (Service.start access config s).pool.channel = [] := by
  cases access <;> rfl

namespace Backed

theorem start (access : Access) (hstart : Started X config s₀) :
    Backed X P s₀ (Service.start access config s₀) where
  steps := by
    rw [coordinator_start]
  idle := by
    rw [coordinator_start]
    exact hstart.idle
  permits := by
    have hinFlight : s₀.inFlight = [] := by cases hstart <;> rfl
    rw [Balanced, channel_start, coordinator_start, hinFlight]
    exact .refl _
  matched cmd hcmd := by
    rw [channel_start] at hcmd
    cases hcmd

theorem holds (h : Backed X P s₀ v) (hturn : v.pool.Turn late env op) :
    op.Holds v.pool.coordinator := by
  cases op with
  | handle cmd =>
    cases cmd with
    | submit queue spec permit reply =>
      have hmem : Command.submit queue spec permit reply ∈ v.pool.channel :=
        List.mem_of_mem_head? hturn
      refine ⟨h.permits.mem_iff.mp (List.mem_append_right _ ?_), h.matched _ hmem⟩
      exact List.mem_filterMap.mpr ⟨_, hmem, rfl⟩
    | _ => trivial
  | _ => trivial

theorem enabled (h : Backed X P s₀ v) (hturn : v.pool.Turn late env op)
    (hrunning : v.pool.coordinator.exited = false) (hfault : ∀ t, P (env.fate t).fault)
    (hfresh : ∀ t, v.pool.coordinator.store.get (env.uuid t) = none) :
    op.Enabled P env v.pool.coordinator :=
  ⟨hrunning, h.holds hturn, hfault, hfresh⟩

theorem move_steps (h : Backed X P s₀ v) {k : Nat} {call call' : Call}
    (hcall : v.calls[k]? = some call) (hstep : CallStep config v.calls v.pool call p call') :
    Steps X P v.pool.coordinator p.coordinator := by
  rcases hstep.coordinator_cases with
    heq | ⟨_, _, hsem, havail, _, heq⟩ | ⟨permit, hpermit, heq⟩ <;>
    rw [heq]
  · exact .single (.acquire hsem havail)
  · refine .single (.returnPermit (h.permits.mem_iff.mp (List.mem_append_left _ ?_)))
    exact List.mem_filterMap.mpr ⟨call, List.mem_of_getElem? hcall, hpermit⟩

theorem move (h : Backed X P s₀ v) {k : Nat} {call call' : Call}
    (hcall : v.calls[k]? = some call) (hstep : CallStep config v.calls v.pool call p call') :
    Backed X P s₀ { v with pool := p, calls := v.calls.set k call' } where
  steps := h.steps.trans (h.move_steps hcall hstep)
  idle := hstep.idle h.idle
  permits := hstep.balanced hcall h.permits
  matched cmd hcmd := by
    rcases hstep.channel_cases with hchannel | ⟨ask, reply, _, _, rfl, _⟩
    · exact h.matched cmd (hchannel ▸ hcmd)
    · rcases List.mem_append.mp hcmd with hcmd | hcmd
      · exact h.matched cmd hcmd
      · rw [List.mem_singleton.mp hcmd]
        exact ask.matched_command reply

theorem exec_steps (h : Backed X P s₀ v) (hstart : Started X config s₀)
    (henabled : op.Enabled P env v.pool.coordinator)
    (hexec : exec X config env op v.pool.coordinator = .ok () s) :
    Steps X P v.pool.coordinator s :=
  StepsOf.steps (wp_ok (exec_logs (Steps.placement h.steps hstart.placement) henabled) hexec).1

theorem rest_subset (p : Pool) (op : Op) : p.rest op ⊆ p.channel := by
  cases op <;> first | exact List.Subset.refl _ | exact List.tail_subset _

theorem coordinator (h : Backed X P s₀ v) (hstart : Started X config s₀)
    (hturn : v.pool.Turn late env op) (henabled : op.Enabled P env v.pool.coordinator)
    (hexec : exec X config env op v.pool.coordinator = .ok () s) :
    Backed X P s₀
      { v with pool := { v.pool with coordinator := s, channel := v.pool.rest op } } where
  steps := h.steps.trans (h.exec_steps hstart henabled hexec)
  idle := h.idle.run (.single (.exec henabled hexec))
  permits := by
    have hperm := h.permits.trans (exec_inFlight h.idle henabled.holds hexec).symm
    rw [Pool.channel_filterMap Command.permit? hturn] at hperm
    refine (List.perm_append_left_iff op.permit?.toList).mp (List.Perm.trans ?_ hperm)
    rw [← List.append_assoc, ← List.append_assoc]
    exact List.perm_append_comm.append_right _
  matched cmd hcmd := h.matched cmd (rest_subset v.pool op hcmd)

theorem worker (h : Backed X P s₀ v) (hstep : PoolStep X P config late v.pool p)
    (hmoved : p.workers ≠ v.pool.workers) : Backed X P s₀ { v with pool := p } := by
  obtain ⟨hcoordinator, sent, hchannel, hsent⟩ := hstep.of_moved hmoved
  have hpermits : sent.toList.filterMap Command.permit? = [] := by
    rw [List.filterMap_eq_nil_iff]
    intro cmd hcmd
    have hfrom := (hsent cmd (Option.mem_toList.mp hcmd)).1
    cases cmd <;> first | rfl | cases hfrom
  refine ⟨?_, ?_, ?_, fun cmd hcmd => ?_⟩
  · exact (congrArg (Steps X P s₀) hcoordinator).mpr h.steps
  · exact (congrArg Idle hcoordinator).mpr h.idle
  · change (_ ++ p.channel.filterMap _).Perm p.coordinator.inFlight
    rw [hchannel, hcoordinator, List.filterMap_append, hpermits, List.append_nil]
    exact h.permits
  · rw [hchannel] at hcmd
    rcases List.mem_append.mp hcmd with hcmd | hcmd
    · exact h.matched cmd hcmd
    · have hfrom := (hsent cmd (Option.mem_toList.mp hcmd)).1
      cases cmd <;> trivial

theorem begin (h : Backed X P s₀ v) (ask : Ask) (held : Bool) :
    Backed X P s₀ { v with calls := v.calls ++ [.begun ask], held := held } where
  steps := h.steps
  idle := h.idle
  permits := by
    change ((v.calls ++ [Call.begun ask]).filterMap _ ++ _).Perm _
    rw [List.filterMap_append]
    exact (List.append_nil (v.calls.filterMap Call.permit?)).symm ▸ h.permits
  matched := h.matched

theorem close (h : Backed X P s₀ v) : Backed X P s₀ { v with
    pool := v.pool.withCoordinator v.pool.coordinator.closeSemaphores
    shut := true } where
  steps := h.steps.tail (.quiet (quiet_closeSemaphores _))
  idle := h.idle
  permits := h.permits
  matched := h.matched

theorem step (h : Backed X P s₀ v) (hstart : Started X config s₀)
    (hstep : ServiceStep X P config late v v') : Backed X P s₀ v' := by
  cases hstep with
  | call | shutdown => exact h.begin _ _
  | letGo => exact ⟨h.steps, h.idle, h.permits, h.matched⟩
  | close => exact h.close
  | move hcall hstep => exact h.move hcall hstep
  | coordinator hturn _ hrunning hfault hfresh hexec =>
    exact h.coordinator hstart hturn (h.enabled hturn hrunning hfault hfresh) hexec
  | worker hstep hmoved => exact h.worker hstep hmoved

theorem run (h : Backed X P s₀ v) (hstart : Started X config s₀)
    (hrun : Service.Run X P config late v v') : Backed X P s₀ v' := by
  induction hrun with
  | refl => exact h
  | tail _ hstep ih => exact ih.step hstart hstep

end Backed

/-! ## Capacity -/

/-- The permits of a queue with which submissions wait: those that calls have in hand and those
that commands have in the channel. -/
def unansweredIn (v : Service) (q : String) : Nat :=
  (v.calls.filterMap Call.permit? ++ v.pool.channel.filterMap Command.permit?).countP (·.queue = q)

/-- Whatever the clients do and however persist calls go: the capacity of a queue is all
accounted for as long as no job has ended that was live in the queue when the process started,
and no longer. -/
theorem capacity_kept_iff {access : Access} (hboots : Boots X config s₀)
    (hrun : Service.Run X P config late (Service.start access config s₀) v) {q : String} {c : Nat}
    (hc : config.capacity q = some c) :
    c ≤ v.pool.coordinator.availableIn q + v.unansweredIn q + v.pool.coordinator.store.liveIn q ↔
      ∀ r ∈ v.pool.coordinator.acked, ¬EndsOld s₀ q r := by
  have hbacked := (Backed.start access hboots.started).run hboots.started hrun
  have hinFlight : v.unansweredIn q = v.pool.coordinator.inFlightIn q :=
    hbacked.permits.countP_eq _
  rw [hinFlight]
  exact (Steps.accounts hbacked.steps hboots.accounts).capacity_le_iff hc

end Service

open Service

def mailService (s : Coordinator) (channel : List Command) (call : Call) : Service :=
  ⟨⟨s, channel, [.top], []⟩, [call], .runtime, true, false⟩

theorem coordinator_mailService (s : Coordinator) (channel : List Command) (call : Call) :
    (mailService s channel call).pool.coordinator = s := rfl

theorem mailService_cancel {s s' : Coordinator} {env : Env} (hP : ∀ t, P (env.fate t).fault)
    (hrunning : s.exited = false) (hnew : 0 ∉ (Pool.mk s [] [.top] []).replies)
    (hfresh : ∀ t, s.store.get (env.uuid t) = none)
    (hexec : exec Postcard.crates mailConfig env (.handle (.cancel ⟨1⟩ 0)) s = .ok () s') :
    Service.Run Postcard.crates P mailConfig true (Service.start .runtime mailConfig s)
      (mailService s' [] (.awaiting (.cancel ⟨1⟩) 0)) := by
  have hcall : ServiceStep Postcard.crates P mailConfig true
      (Service.start .runtime mailConfig s) (mailService s [] (.begun (.cancel ⟨1⟩))) :=
    .call (fun h => nomatch h) rfl
  have hproceed : ServiceStep Postcard.crates P mailConfig true
      (mailService s [] (.begun (.cancel ⟨1⟩))) (mailService s [] (.sending (.cancel ⟨1⟩))) :=
    .move (k := 0) rfl (.proceed rfl)
  have hsend : ServiceStep Postcard.crates P mailConfig true
      (mailService s [] (.sending (.cancel ⟨1⟩)))
      (mailService s [.cancel ⟨1⟩ 0] (.awaiting (.cancel ⟨1⟩) 0)) :=
    .move (k := 0) rfl (.send ⟨hrunning, show 0 < mailConfig.channelCapacity by decide⟩ hnew)
  have hserve : ServiceStep Postcard.crates P mailConfig true
      (mailService s [.cancel ⟨1⟩ 0] (.awaiting (.cancel ⟨1⟩) 0))
      (mailService s' [] (.awaiting (.cancel ⟨1⟩) 0)) := by
    have hturn : Pool.Turn true env
        (mailService s [.cancel ⟨1⟩ 0] (.awaiting (.cancel ⟨1⟩) 0)).pool
        (.handle (.cancel ⟨1⟩ 0)) := rfl
    exact .coordinator hturn (fun h => nomatch h) hrunning hP hfresh hexec
  exact (((Relation.ReflTransGen.single hcall).tail hproceed).tail hsend).tail hserve

theorem mailService_forgotten (hP : P .none) : Service.Run Postcard.crates P mailConfig true
    (Service.start .runtime mailConfig mailRestarted)
    (mailService mailForgotten [] (.awaiting (.cancel ⟨1⟩) 0)) := by
  have hfresh : mailRestarted.store.get ⟨2⟩ = none := by decide +kernel
  have hexec : exec Postcard.crates mailConfig (mailEnv ⟨2⟩ .none) (.handle (.cancel ⟨1⟩ 0))
      mailRestarted = .ok () mailForgotten := exec_eq_after (by decide +kernel)
  have hnew : 0 ∉ (Pool.mk mailRestarted [] [.top] []).replies := by decide +kernel
  refine mailService_cancel ?_ (by decide +kernel) hnew ?_ hexec
  · exact fun _ => hP
  · exact fun _ => hfresh

/-- Before the cancellation the job itself accounts for the capacity of its queue. -/
theorem capacity_kept_restarted :
    1 ≤ mailRestarted.availableIn "mail" +
        (Service.start .runtime mailConfig mailRestarted).unansweredIn "mail" +
        mailRestarted.store.liveIn "mail" ∧
      ¬∀ r ∈ mailForgotten.acked, ¬EndsOld mailRestarted "mail" r := by
  have hrun : Service.Run Postcard.crates (fun _ => True) mailConfig true
      (Service.start .runtime mailConfig mailRestarted)
      (Service.start .runtime mailConfig mailRestarted) := .refl
  have hrestarted := capacity_kept_iff mailRestarted_boots hrun (q := "mail") (c := 1) rfl
  have hforgotten := capacity_kept_iff mailRestarted_boots
    (mailService_forgotten (P := fun _ => True) trivial) (q := "mail") (c := 1) rfl
  have hacked : mailRestarted.acked = [] := by decide +kernel
  rw [coordinator_start, hacked] at hrestarted
  rw [coordinator_mailService] at hforgotten
  exact ⟨hrestarted.mpr fun r hr => absurd hr List.not_mem_nil,
    hforgotten.not.mp (by decide +kernel)⟩

/-- A recovered job that is cancelled takes its permit with it: nothing is left of the queue's
capacity, although no job and no submission occupies it. -/
theorem recovered_cancel_leaks : Boots Postcard.crates mailConfig mailRestarted ∧
    ∃ v, Service.Run Postcard.crates (· = .none) mailConfig true
        (Service.start .runtime mailConfig mailRestarted) v ∧
      v.pool.coordinator.shuttingDown = false ∧ mailConfig.capacity "mail" = some 1 ∧
      v.pool.coordinator.availableIn "mail" + v.unansweredIn "mail" +
        v.pool.coordinator.store.liveIn "mail" = 0 :=
  ⟨mailRestarted_boots, _, mailService_forgotten rfl, by decide +kernel, rfl, by decide +kernel⟩

/-! ## The process model -/

namespace Service

variable {s₀ : Coordinator} {v v' : Service}

theorem access_eq (h : ServiceStep X P config late v v') : v'.access = v.access := by
  cases h <;> rfl

theorem Backed.pool_run (h : Backed X P s₀ v) (haccess : v.access = .runtime)
    (hstep : ServiceStep X P config late v v') : Pool.Run X P config late v.pool v'.pool := by
  cases hstep with
  | call | shutdown | letGo => exact .refl
  | close hhandle => cases haccess.symm.trans hhandle
  | @move k call call' p hcall hstep =>
    have hback : ∀ call, call ∈ v.calls → Pool.Run X P config late v.pool
        (v.pool.withCoordinator (call.giveBack v.pool.coordinator)) := by
      intro call hcall
      unfold Call.giveBack
      cases hpermit : call.permit? with
      | none => exact .refl
      | some permit =>
        refine .single (.abandon (h.permits.mem_iff.mp (List.mem_append_left _ ?_)))
        exact List.mem_filterMap.mpr ⟨call, hcall, hpermit⟩
    cases hstep with
    | acquire hsem havail hopen | tryAcquire hsem havail hopen =>
      exact .single (.acquire hsem havail hopen)
    | @send ask reply hsend =>
      exact .single (.client (by cases ask <;> rfl) hsend)
    | sendFails | drop => exact hback _ (List.mem_of_getElem? hcall)
    | notFound | enter | closed | full | proceed | replied | lost | shutdownUnsent
    | shutdownReplied | joined | left => exact .refl
  | coordinator hturn _ hrunning hfault hfresh hexec =>
    exact .single (.coordinator hturn (h.enabled hturn hrunning hfault hfresh) hexec)
  | worker hstep => exact .single hstep

end Service

/-- A runtime with its clients runs as the process model says, in which clients do as they like
but a submission that is handled holds a permit of its queue: the clients' code sees to that.
At any time the permits in flight are those that calls have in hand and those in the channel. -/
theorem runtime_refines_pool {s₀ : Coordinator} {v : Service} (hboots : Boots X config s₀)
    (hrun : Service.Run X P config late (Service.start .runtime config s₀) v) :
    Pool.Run X P config late (Pool.start config s₀) v.pool ∧ Balanced v.calls v.pool := by
  have hstart : Backed X P s₀ (Service.start .runtime config s₀) := .start .runtime hboots.started
  have hboth : Pool.Run X P config late (Pool.start config s₀) v.pool ∧ v.access = .runtime := by
    induction hrun with
    | refl => exact ⟨.refl, rfl⟩
    | tail hrun hstep ih =>
      obtain ⟨hpool, haccess⟩ := ih
      exact ⟨hpool.trans ((hstart.run hboots.started hrun).pool_run haccess hstep),
        (access_eq hstep).trans haccess⟩
  exact ⟨hboth.1, (hstart.run hboots.started hrun).permits⟩

def mailAsk : Ask := .submit ⟨"mail"⟩ ⟨[1, 2], 3⟩

def mailReply : Reply := .job (.ok ⟨⟨1⟩, ⟨"mail"⟩, ⟨[1, 2], 3⟩, .queued, 0, ⟨0⟩⟩)

def mailCourse : Nat → Service
  | 0 => Service.start .runtime mailConfig mailStart
  | 1 => mailService mailStart [] (.begun mailAsk)
  | 2 => mailService mailStart [] (.acquiring ⟨"mail"⟩ ⟨[1, 2], 3⟩)
  | 3 => mailService mailAcquired [] (.sending mailAsk)
  | 4 => mailService mailAcquired [mailAsk.command 0] (.awaiting mailAsk 0)
  | 5 => mailService mailSubmitted [] (.awaiting mailAsk 0)
  | _ => mailService mailSubmitted [] (.answered mailAsk 0 mailReply)

theorem mailCourse_steps (hP : P .none) :
    ∀ i < 6, ServiceStep Postcard.crates P mailConfig true (mailCourse i) (mailCourse (i + 1)) := by
  have hsem : mailStart.semaphores.get "mail" = some (Semaphore.new 1) := rfl
  intro i hi
  interval_cases i
  · exact .call (fun h => nomatch h) rfl
  · exact .move (k := 0) rfl (.enter hsem)
  · exact .move (k := 0) rfl (.acquire hsem (by decide) rfl)
  · exact .move (k := 0) rfl (.send ⟨rfl, by decide⟩ (by decide +kernel))
  · have hturn : (mailCourse 4).pool.Turn true (mailEnv ⟨1⟩ .none)
        (.handle (mailAsk.command 0)) := rfl
    exact .coordinator hturn (fun h => nomatch h) rfl (fun _ => hP) (fun _ => rfl) rfl
  · have hreply : (0, mailReply) ∈ mailSubmitted.sent :=
      List.mem_of_getElem? (show mailSubmitted.sent[0]? = some _ from rfl)
    exact .move (k := 0) rfl (.replied (fun h => nomatch h) hreply)

/-- The only permit has been used up by the job. -/
theorem runtime_refines_pool_mail :
    mailSubmitted.permits.keys = [⟨1⟩] ∧ Pool.Run Postcard.crates Fault.Clean mailConfig true
      (Pool.start mailConfig mailStart) ⟨mailSubmitted, [], [.top], []⟩ :=
  ⟨by decide +kernel, (runtime_refines_pool (v := mailCourse 6)
    ((mailStart_reachable Fault.Clean).boots Postcard.crates_lawful Postcard.crates_compact).1
    (reaches_of_steps (mailCourse_steps trivial))).1⟩

end DurableQueue
