import DurableQueue.Defs.Board
import DurableQueue.Defs.ClientPermits
import DurableQueue.Defs.Endings

/-! What a client can rely on: its call is answered, and not turned away without a reason. -/

namespace DurableQueue

open Coordinator

variable {X : Crates} {P : Fault → Prop} {config : RuntimeConfig} {late : Bool}

/-! ## The coordinator's side -/

namespace Coordinator

variable {clock : Nat → Instant} {D : Dealing → Prop} {env : Env} {s s' : Coordinator}

def Stopping (s : Coordinator) : Prop := s.shuttingDown = true ∨ s.exited = true

theorem Act.stopping (h : Act config clock D s s') (hs : Stopping s) : Stopping s' := by
  cases h with
  | silent h => rwa [Stopping, h.shuttingDown, h.exited]
  | grant | removeLease | cancelLease | schedule | popRetry | hand | completeShutdown => exact hs
  | drain => exact Or.inl rfl
  | exit => exact Or.inr rfl

theorem Act.closed (h : Act config clock D s s') {queue : String}
    (hclosed : s'.closedFlags queue = some true) :
    s.closedFlags queue = some true ∨ Stopping s' := by
  cases h with
  | silent h => exact Or.inl (h.closedFlags ▸ hclosed)
  | grant | removeLease | cancelLease | schedule | popRetry | hand | completeShutdown =>
    exact Or.inl hclosed
  | drain => exact Or.inr (Or.inl rfl)
  | exit => exact Or.inr (Or.inr rfl)

theorem Acts.closed (h : Acts config clock D s s') {queue : String}
    (hclosed : s'.closedFlags queue = some true) :
    s.closedFlags queue = some true ∨ Stopping s' := by
  induction h with
  | refl => exact Or.inl hclosed
  | tail _ hact ih =>
    rcases hact.closed hclosed with hclosed | hstopping
    · exact (ih hclosed).imp_right hact.stopping
    · exact Or.inr hstopping

theorem exec_closed (hidle : Idle s) {op : Op} (h : exec X config env op s = .ok () s')
    {queue : String} (hclosed : s'.closedFlags queue = some true) :
    s.closedFlags queue = some true ∨ Stopping s' := by
  obtain ⟨s₁, hacts, hreceives⟩ := wp_ok (exec_receives hidle op) h
  generalize op.awaits = awaits at hreceives
  cases hreceives <;> exact hacts.closed hclosed

theorem exec_stopping (hidle : Idle s) {op : Op} (h : exec X config env op s = .ok () s')
    (hs : Stopping s') :
    Stopping s ∨ op = .hangUp ∨ ∃ reply, op = .handle (.shutdown reply) := by
  cases hdown : s.shuttingDown with
  | true => exact Or.inl (Or.inl hdown)
  | false =>
    rcases steers_cases op with hop | rfl | hop
    · by_cases hhang : op = .hangUp
      · exact Or.inr (Or.inl hhang)
      · have hphase := (exec_phase hop).ok h
        have hsame : s'.shuttingDown = s.shuttingDown := congrArg Control.shuttingDown hphase
        have hD : ¬op.Deals .leave := by
          cases op with
          | handle cmd => cases cmd <;> simp [Op.Deals]
          | checkExit => cases hop
          | hangUp => exact absurd rfl hhang
          | processDueRetries | checkLeaseTimeouts | tryDispatchParkedWorkers => simp [Op.Deals]
        rw [Stopping, hsame, exec_exited_eq hidle hD h] at hs
        exact Or.inl hs
    · -- before a shutdown there is no deadline, and the test does nothing
      have hdeadline := (hidle hdown).2.1
      have hsame : s' = s := by
        refine wp_ok (m := checkExit env) (Q := fun _ s' => s' = s) (E := fun _ _ => True) ?_ h
        refine (wp_bind _ _).mpr (wp_get.mpr ?_)
        rw [hdown, hdeadline]
        exact rfl
      exact Or.inl (hsame ▸ hs)
    · exact Or.inr (Or.inr hop)

/-! ### Open semaphores -/

theorem reserve_closed {queue : String} {count n : Nat} {sem sem' : Semaphore}
    (h : reserve queue count n sem = .ok sem') : sem'.closed = sem.closed := by
  induction n generalizing sem with
  | zero =>
    cases h
    rfl
  | succ n ih =>
    rw [reserve] at h
    split at h
    · cases h
    · exact (ih h :)

theorem reserveAll_closed {l : List (String × Nat)} {sems sems' : HashMap String Semaphore}
    (h : reserveAll l sems = .ok sems') (q : String) :
    (sems'.get q).map (·.closed) = (sems.get q).map (·.closed) := by
  induction l generalizing sems with
  | nil =>
    cases h
    rfl
  | cons p l ih =>
    rw [reserveAll] at h
    split at h
    · exact ih h
    · rename_i sem hsem
      split at h
      · cases h
      · rename_i hres
        rw [ih h, HashMap.get_insert]
        split
        · rename_i hq
          rw [hq, hsem, Option.map_some, reserve_closed hres]
          rfl
        · rfl

theorem Boots.closedFlags (h : Boots X config s) (queue : String) :
    s.closedFlags queue ≠ some true := by
  have hnew : ((newSemaphores config).get queue).map (·.closed) ≠ some true := by
    rw [get_newSemaphores]
    cases config.capacity queue <;> exact fun h => nomatch h
  cases h with
  | memory env h =>
    obtain ⟨_, rfl⟩ := startMemory_ok h
    exact hnew
  | wal env walFile h hids =>
    obtain ⟨rec, f, sems, _, _, _, hsems, rfl⟩ := startWal_ok h
    have hsame : (sems.get queue).map (·.closed) = _ := reserveAll_closed hsems queue
    exact fun hclosed => hnew (hsame ▸ hclosed)

/-! ### Answers -/

def toClient? : Sender × Reply → Option Sender
  | (reply, .job _) | (reply, .stats _) => some reply
  | (_, .work _) | (_, .done) => none

theorem Act.sent_eq (h : Act config clock D s s') :
    ∃ new, s'.sent = s.sent ++ new ∧ ∀ x ∈ new, toClient? x = none := by
  cases h with
  | silent h => exact ⟨[], by rw [h.sent, List.append_nil], fun _ hx => absurd hx List.not_mem_nil⟩
  | grant | removeLease | cancelLease | schedule | popRetry | exit =>
    exact ⟨[], (List.append_nil _).symm, fun _ hx => absurd hx List.not_mem_nil⟩
  | @hand _ worker rest _ job =>
    refine ⟨[(worker, .work (some job))], rfl, fun x hx => ?_⟩
    rw [List.mem_singleton.mp hx]
    rfl
  | drain =>
    refine ⟨_, rfl, fun x hx => ?_⟩
    obtain ⟨worker, _, rfl⟩ := List.mem_map.mp hx
    rfl
  | completeShutdown =>
    refine ⟨s.shutdownReply.toList.map (·, .done), ?_, fun x hx => ?_⟩
    · unfold Coordinator.completeShutdown
      cases s.shutdownReply with
      | none => exact (List.append_nil _).symm
      | some reply => rfl
    · obtain ⟨reply, _, rfl⟩ := List.mem_map.mp hx
      rfl

theorem Acts.sent_eq (h : Acts config clock D s s') :
    ∃ new, s'.sent = s.sent ++ new ∧ ∀ x ∈ new, toClient? x = none := by
  induction h with
  | refl => exact ⟨[], (List.append_nil _).symm, fun _ hx => absurd hx List.not_mem_nil⟩
  | tail _ hact ih =>
    obtain ⟨new, hnew, hnone⟩ := ih
    obtain ⟨new', hnew', hnone'⟩ := hact.sent_eq
    refine ⟨new ++ new', by rw [hnew', hnew, List.append_assoc], fun x hx => ?_⟩
    exact (List.mem_append.mp hx).elim (hnone x) (hnone' x)

theorem exec_sent_eq (hidle : Idle s) {op : Op} (h : exec X config env op s = .ok () s') :
    ∃ new, (∀ x ∈ new, toClient? x = none) ∧
      (s'.sent = s.sent ++ new ∧ (∀ r ∈ op.awaits, r.2 = .work ∨ r.2 = .done) ∨
      ∃ reply msg, op.awaits = some (reply, msg.kind) ∧
        s'.sent = s.sent ++ (new ++ [(reply, msg)])) := by
  obtain ⟨s₁, hacts, hreceives⟩ := wp_ok (exec_receives hidle op) h
  obtain ⟨new, hnew, hnone⟩ := hacts.sent_eq
  refine ⟨new, hnone, ?_⟩
  generalize op.awaits = awaits at hreceives
  cases hreceives with
  | nothing => exact Or.inl ⟨hnew, fun _ hr => nomatch hr⟩
  | park | keep =>
    refine Or.inl ⟨hnew, fun r hr => ?_⟩
    cases hr
    simp
  | answer reply msg =>
    refine Or.inr ⟨reply, msg, rfl, ?_⟩
    change s₁.sent ++ _ = _
    rw [hnew, List.append_assoc]

theorem exec_sent (hidle : Idle s) {op : Op} (h : exec X config env op s = .ok () s') :
    s.sent ⊆ s'.sent ∧ ∀ reply result, (reply, .job result) ∈ s'.sent →
      (reply, .job result) ∈ s.sent ∨ op.awaits = some (reply, .job) ∧
        s'.sent.getLast? = some (reply, .job result) := by
  obtain ⟨new, hnone, ⟨hsent, _⟩ | ⟨reply, msg, hawaits, hsent⟩⟩ := exec_sent_eq hidle h <;>
    rw [hsent]
  · refine ⟨List.subset_append_left _ _, fun reply result hmem => Or.inl ?_⟩
    exact (List.mem_append.mp hmem).resolve_right fun hmem => nomatch hnone _ hmem
  · refine ⟨List.subset_append_left _ _, fun reply' result hmem => ?_⟩
    rcases List.mem_append.mp hmem with hmem | hmem
    · exact Or.inl hmem
    · rcases List.mem_append.mp hmem with hmem | hmem
      · cases hnone _ hmem
      · cases List.mem_singleton.mp hmem
        refine Or.inr ⟨hawaits, ?_⟩
        rw [← List.append_assoc]
        exact List.getLast?_concat

end Coordinator

theorem Truthful.shuttingDown {g : Grounds} {b : Board JobId Request} {cmd : Command}
    {made : List (Move JobId Request)}
    (h : Truthful config g b cmd made (.error .shuttingDown)) : g.down = true := by
  cases h with
  | refused h =>
    cases h with
    | shuttingDown hdown => exact hdown

/-! ## The clients' side -/

def Ask.kind : Ask → Reply.Kind
  | .submit .. | .trySubmit .. | .status _ | .cancel _ => .job
  | .stats => .stats
  | .shutdown => .done

theorem Ask.awaits_command (ask : Ask) (reply : Sender) :
    (ask.command reply).awaits = some (reply, ask.kind) := by
  cases ask <;> rfl

def Call.forShutdown : Call → Prop
  | .begun ask | .sending ask | .awaiting ask _ => ask = .shutdown
  | .joining | .leaving => True
  | .acquiring .. | .answered .. | .failed .. | .done | .dropped => False

namespace Pool

variable {p p' : Pool} {env : Env} {op : Op} {s : Coordinator}

def requests (p : Pool) : List (Sender × Reply.Kind) :=
  p.coordinator.answered ++ p.coordinator.waiting ++ p.channel.filterMap Command.awaits

theorem replies_eq (p : Pool) :
    p.replies = p.requests.map Prod.fst ++ p.workers.filterMap Worker.reply? := by
  have hchannel : (p.channel.filterMap Command.awaits).map Prod.fst =
      p.channel.filterMap Command.reply? := by
    rw [List.map_filterMap]
    congr 1
    funext cmd
    cases cmd <;> rfl
  have hwaiting : p.coordinator.waiting.map Prod.fst =
      p.coordinator.parkedWorkers ++ p.coordinator.shutdownReply.toList := by
    simp [waiting, Function.comp_def]
  have hanswered : p.coordinator.answered.map Prod.fst = p.coordinator.sent.map Prod.fst := by
    simp [answered, Function.comp_def]
  rw [replies, requests, List.map_append, List.map_append, hchannel, hwaiting, hanswered,
    ← List.append_assoc]

theorem requests_push (p : Pool) (cmd : Command) :
    (p.push cmd).requests = p.requests ++ cmd.awaits.toList := by
  simp only [requests, push, List.filterMap_append, List.append_assoc]
  cases h : cmd.awaits <;> simp [h]

theorem exec_requests (hidle : Idle p.coordinator) (hturn : p.Turn late env op)
    (hexec : exec X config env op p.coordinator = .ok () s) :
    (requests { p with coordinator := s, channel := p.rest op }).Perm p.requests := by
  obtain ⟨s₁, hacts, hreceives⟩ := wp_ok (exec_receives hidle op) hexec
  have hperm := hreceives.answered_perm.trans (hacts.answered_perm.append_right _)
  rw [requests, requests, channel_filterMap Command.awaits hturn, ← Op.awaits_eq,
    ← List.append_assoc]
  exact hperm.append_right _

end Pool

namespace CallStep

variable {calls : List Call} {p p' : Pool} {call call' : Call}

theorem not_isOver (h : CallStep config calls p call p' call') : call.isOver = false := by
  cases h with
  | drop hover => exact hover
  | _ => rfl

theorem forShutdown (h : CallStep config calls p call p' call') :
    (call'.forShutdown → call.forShutdown) ∧
      (call.forShutdown → call'.isOver = true ∨ call'.forShutdown) := by
  cases h with
  | notFound | closed | full | sendFails | replied | lost | left | drop =>
    exact ⟨fun h => h.elim, fun _ => Or.inl rfl⟩
  | enter => exact ⟨fun h => h.elim, fun h => nomatch h⟩
  | acquire | tryAcquire => exact ⟨fun h => (nomatch h), fun h => nomatch h⟩
  | proceed | send => exact ⟨id, Or.inr⟩
  | shutdownUnsent | shutdownReplied => exact ⟨fun _ => rfl, fun _ => Or.inr trivial⟩
  | joined => exact ⟨id, Or.inr⟩

theorem stopping_iff (h : CallStep config calls p call p' call') :
    Stopping p'.coordinator ↔ Stopping p.coordinator := by
  rw [Stopping, h.silent.shuttingDown, h.silent.exited, Stopping]

theorem requests_eq (h : CallStep config calls p call p' call')
    (hchannel : p'.channel = p.channel) :
    p'.requests = p.requests := by
  rw [Pool.requests, answered, waiting, h.silent.sent, h.silent.parkedWorkers,
    h.silent.shutdownReply, hchannel]
  rfl

end CallStep

/-- Why a call ends without having reached the coordinator; `shut` tells whether
`QueueHandle::shutdown` has been called. -/
inductive Fails (config : RuntimeConfig) (shut : Bool) : Ask → Error → Prop
  | notFound {ask : Ask} {queue : QueueName} (hask : ask.queue? = some queue)
      (hnone : config.capacity queue.asStr = none) :
      Fails config shut ask (.queueNotFound queue.asStr)
  | full (queue : QueueName) (spec : JobSpec) :
      Fails config shut (.trySubmit queue spec) (.queueFull queue.asStr)
  | closed (h : shut = true) (queue : QueueName) (spec : JobSpec) :
      Fails config shut (.submit queue spec) .shuttingDown

def Call.Fair (config : RuntimeConfig) (shut : Bool) : Call → Prop
  | .failed ask e => Fails config shut ask e
  | .answered _ _ msg => msg ≠ .job (.error .shuttingDown)
  | _ => True

theorem Call.Fair.shut {shut : Bool} {call : Call} (h : call.Fair config shut) :
    call.Fair config true := by
  cases call with
  | failed ask e =>
    cases h with
    | notFound hask hnone => exact Fails.notFound hask hnone
    | full => exact Fails.full _ _
    | closed => exact Fails.closed rfl _ _
  | _ => exact h

namespace Service

variable {base : List WalRecord} {past : List LeaseId} {s₀ s : Coordinator} {v v' : Service}
  {env : Env} {op : Op} {p : Pool}

def Closing (v : Service) : Prop :=
  Stopping v.pool.coordinator ∨ (∃ reply, .shutdown reply ∈ v.pool.channel) ∨
    ∃ call ∈ v.calls, call.forShutdown

theorem Closing.of_move {k : Nat} {call call' : Call}
    (hcall : v.calls[k]? = some call) (hstep : CallStep config v.calls v.pool call p call')
    (hclosing : Closing { v with pool := p, calls := v.calls.set k call' }) : v.Closing := by
  have hmem := List.mem_of_getElem? hcall
  rcases hclosing with hstopping | ⟨reply, hreply⟩ | ⟨other, hother, hfor⟩
  · exact Or.inl (hstep.stopping_iff.mp hstopping)
  · rcases hstep.channel_cases with hchannel | ⟨ask, reply', rfl, _, rfl, _⟩
    · exact Or.inr (Or.inl ⟨reply, hchannel ▸ hreply⟩)
    · rcases List.mem_append.mp hreply with hreply | hreply
      · exact Or.inr (Or.inl ⟨reply, hreply⟩)
      · refine Or.inr (Or.inr ⟨_, hmem, ?_⟩)
        cases ask <;> first | rfl | cases List.mem_singleton.mp hreply
  · rcases List.mem_or_eq_of_mem_set hother with hother | rfl
    · exact Or.inr (Or.inr ⟨other, hother, hfor⟩)
    · exact Or.inr (Or.inr ⟨call, hmem, hstep.forShutdown.1 hfor⟩)

structure Orderly (X : Crates) (config : RuntimeConfig) (base : List WalRecord)
    (past : List LeaseId) (s₀ : Coordinator) (v : Service) : Prop
    extends Backed X Fault.Clean s₀ v where
  started : Started X config s₀
  sound : Sound X config base past s₀ v.pool.coordinator
  requests : (v.pool.requests.map Prod.fst).Nodup
  awaited : ∀ ask reply, .awaiting ask reply ∈ v.calls → (reply, ask.kind) ∈ v.pool.requests
  closing : v.Closing → v.held = false ∧ ∀ call ∈ v.calls, call.isOver = true ∨ call.forShutdown
  closed : ∀ queue, v.pool.coordinator.closedFlags queue = some true →
    v.shut = true ∨ Stopping v.pool.coordinator
  shut : v.shut = true → v.access = .handle
  refused : ∀ reply, (reply, .job (.error .shuttingDown)) ∈ v.pool.coordinator.sent →
    Stopping v.pool.coordinator
  fair : ∀ call ∈ v.calls, call.Fair config v.shut

namespace Orderly

theorem start (access : Access) (hboots : Boots X config s₀)
    (hsound : Sound X config base past s₀ s₀) :
    Orderly X config base past s₀ (Service.start access config s₀) := by
  have hstart := hboots.started
  have hnotStopping : ¬Stopping s₀ := by
    have hup : s₀.shuttingDown = false ∧ s₀.exited = false := by cases hstart <;> exact ⟨rfl, rfl⟩
    rw [Stopping, hup.1, hup.2]
    simp
  have hsent : s₀.sent = [] := by cases hstart <;> rfl
  have hwaiting : s₀.waiting = [] := by cases hstart <;> rfl
  have hcalls : ∀ call, call ∉ (Service.start access config s₀).calls := fun _ => List.not_mem_nil
  refine ⟨.start access hstart, hstart, by rwa [coordinator_start], ?_,
    fun _ _ h => absurd h (hcalls _), ?_, ?_, fun h => absurd h Bool.false_ne_true, ?_,
    fun call h => absurd h (hcalls call)⟩
  · rw [Pool.requests, channel_start, coordinator_start, hwaiting, answered, hsent]
    exact List.nodup_nil
  · rintro (h | ⟨_, h⟩ | ⟨_, h, _⟩)
    · rw [coordinator_start] at h
      exact absurd h hnotStopping
    · rw [channel_start] at h
      cases h
    · exact absurd h (hcalls _)
  · rw [coordinator_start]
    exact fun queue h => absurd h (hboots.closedFlags queue)
  · rw [coordinator_start, hsent]
    exact fun _ h => absurd h List.not_mem_nil

theorem not_closing (h : Orderly X config base past s₀ v) {call : Call} (hcall : call ∈ v.calls)
    (hover : call.isOver = false) (hother : ¬call.forShutdown) : ¬v.Closing := by
  intro hclosing
  rcases (h.closing hclosing).2 call hcall with hover' | hfor
  · cases hover.symm.trans hover'
  · exact hother hfor

theorem sent_nodup (h : Orderly X config base past s₀ v) :
    (v.pool.coordinator.sent.map Prod.fst).Nodup := by
  have hall := h.requests
  rw [Pool.requests, List.append_assoc, List.map_append, answered, List.map_map] at hall
  exact hall.of_append_left

theorem sent_unique (h : Orderly X config base past s₀ v) {reply : Sender} {msg msg' : Reply}
    (hmsg : (reply, msg) ∈ v.pool.coordinator.sent)
    (hmsg' : (reply, msg') ∈ v.pool.coordinator.sent) : msg = msg' := by
  have heq := List.inj_on_of_nodup_map h.sent_nodup hmsg hmsg' rfl
  exact (Prod.mk.inj heq).2

theorem not_in_channel (h : Orderly X config base past s₀ v) {ask : Ask} {reply : Sender}
    {msg : Reply} (hmsg : (reply, msg) ∈ v.pool.coordinator.sent) :
    ask.command reply ∉ v.pool.channel := by
  intro hmem
  have hall := h.requests
  rw [Pool.requests, List.map_append] at hall
  refine List.disjoint_of_nodup_append hall (a := reply) ?_ ?_
  · refine List.mem_map.mpr ⟨(reply, msg.kind), List.mem_append_left _ ?_, rfl⟩
    exact List.mem_map.mpr ⟨_, hmsg, rfl⟩
  · exact List.mem_map.mpr ⟨(reply, ask.kind),
      List.mem_filterMap.mpr ⟨_, hmem, ask.awaits_command reply⟩, rfl⟩

theorem move_fair (h : Orderly X config base past s₀ v) {call call' : Call}
    (hcall : call ∈ v.calls) (hstep : CallStep config v.calls v.pool call p call') :
    call'.Fair config v.shut := by
  have hgoes : ¬call.forShutdown → ¬Stopping v.pool.coordinator := fun hother hstopping =>
    h.not_closing hcall hstep.not_isOver hother (Or.inl hstopping)
  cases hstep with
  | notFound hask hnone =>
    refine .notFound hask ?_
    rw [← Option.not_isSome_iff_eq_none, ← h.sound.accounts.semaphores, hnone]
    exact Bool.false_ne_true
  | @closed queue spec sem hsem hclosed =>
    have hflag : v.pool.coordinator.closedFlags queue.asStr = some true := by
      rw [closedFlags, hsem, Option.map_some, hclosed]
    exact .closed ((h.closed _ hflag).resolve_right (hgoes id)) queue spec
  | full => exact .full _ _
  | sendFails hask hgone => exact absurd (Or.inr hgone) (hgoes hask)
  | lost hask _ hgone => exact absurd (Or.inr hgone) (hgoes hask)
  | replied hask hreply =>
    rintro rfl
    exact hgoes hask (h.refused _ hreply)
  | enter | acquire | tryAcquire | proceed | send | shutdownUnsent | shutdownReplied | joined
  | left | drop => trivial

theorem move (h : Orderly X config base past s₀ v) {k : Nat} {call call' : Call}
    (hcall : v.calls[k]? = some call) (hstep : CallStep config v.calls v.pool call p call') :
    Orderly X config base past s₀ { v with pool := p, calls := v.calls.set k call' } where
  toBacked := h.toBacked.move hcall hstep
  started := h.started
  sound := h.sound.steps (h.move_steps hcall hstep)
  requests := by
    rcases hstep.channel_cases with hchannel | ⟨ask, reply, _, _, rfl, hnew⟩
    · exact hstep.requests_eq hchannel ▸ h.requests
    · rw [Pool.replies_eq, List.mem_append, not_or] at hnew
      change ((v.pool.push _).requests.map _).Nodup
      rw [Pool.requests_push, Ask.awaits_command, List.map_append]
      exact List.Nodup.append h.requests (List.nodup_singleton _)
        (List.disjoint_singleton.mpr hnew.1)
  awaited ask reply hmem := by
    rcases hstep.channel_cases with hchannel | ⟨ask', reply', rfl, rfl, rfl, _⟩
    · change _ ∈ p.requests
      rw [hstep.requests_eq hchannel]
      rcases List.mem_or_eq_of_mem_set hmem with hmem | rfl
      · exact h.awaited ask reply hmem
      · cases hstep with
        | send => exact absurd hchannel (by simp [Pool.push])
    · change _ ∈ (v.pool.push _).requests
      rw [Pool.requests_push, Ask.awaits_command]
      rcases List.mem_or_eq_of_mem_set hmem with hmem | heq
      · exact List.mem_append_left _ (h.awaited ask reply hmem)
      · cases heq
        exact List.mem_append_right _ (List.mem_singleton_self _)
  closing hclosing := by
    obtain ⟨hheld, hcalls⟩ := h.closing (.of_move hcall hstep hclosing)
    refine ⟨hheld, fun other hother => ?_⟩
    rcases List.mem_or_eq_of_mem_set hother with hother | rfl
    · exact hcalls other hother
    · refine hstep.forShutdown.2 ((hcalls call (List.mem_of_getElem? hcall)).resolve_left ?_)
      rw [hstep.not_isOver]
      exact Bool.false_ne_true
  closed queue hclosed := by
    change p.coordinator.closedFlags queue = some true at hclosed
    rw [hstep.silent.closedFlags] at hclosed
    exact (h.closed queue hclosed).imp_right hstep.stopping_iff.mpr
  shut := h.shut
  refused reply hreply := by
    change _ ∈ p.coordinator.sent at hreply
    rw [hstep.silent.sent] at hreply
    exact hstep.stopping_iff.mpr (h.refused reply hreply)
  fair other hother := by
    rcases List.mem_or_eq_of_mem_set hother with hother | rfl
    · exact h.fair other hother
    · exact h.move_fair (List.mem_of_getElem? hcall) hstep

theorem coordinator (h : Orderly X config base past s₀ v) (hturn : v.pool.Turn late env op)
    (hclosed : op = .hangUp → v.Unconnected)
    (henabled : op.Enabled Fault.Clean env v.pool.coordinator)
    (hexec : exec X config env op v.pool.coordinator = .ok () s) :
    Orderly X config base past s₀
      { v with pool := { v.pool with coordinator := s, channel := v.pool.rest op } } := by
  have hstays : Stopping v.pool.coordinator → Stopping s := by
    rintro (hdown | hexited)
    · exact Or.inl (exec_down hdown hexec).1
    · cases henabled.running.symm.trans hexited
  refine ⟨h.toBacked.coordinator h.started hturn henabled hexec, h.started,
    h.sound.steps (h.exec_steps h.started henabled hexec), ?_, ?_, ?_, ?_, h.shut, ?_, h.fair⟩
  · exact ((Pool.exec_requests h.idle hturn hexec).map _).nodup_iff.mpr h.requests
  · intro ask reply hmem
    exact (Pool.exec_requests h.idle hturn hexec).mem_iff.mpr (h.awaited ask reply hmem)
  · rintro (hstopping | ⟨reply, hreply⟩ | hfor)
    · rcases exec_stopping h.idle hexec hstopping with hstopping | hop | ⟨reply, rfl⟩
      · exact h.closing (Or.inl hstopping)
      · obtain ⟨hheld, hcalls⟩ := hclosed hop
        refine ⟨hheld, fun call hcall => (hcalls call hcall).imp_right ?_⟩
        rintro rfl
        trivial
      · exact h.closing (Or.inr (Or.inl ⟨reply, List.mem_of_mem_head? hturn⟩))
    · exact h.closing (Or.inr (Or.inl ⟨reply, Backed.rest_subset v.pool op hreply⟩))
    · exact h.closing (Or.inr (Or.inr hfor))
  · intro queue hflag
    rcases exec_closed h.idle hexec hflag with hflag | hstopping
    · exact (h.closed queue hflag).imp_right hstays
    · exact Or.inr hstopping
  · intro reply hreply
    rcases (exec_sent h.idle hexec).2 reply _ hreply with hold | ⟨hawaits, hlast⟩
    · exact hstays (h.refused reply hold)
    · cases op with
      | handle cmd =>
        obtain ⟨result, hlast', s₁, _, _, _, _, _, _, htrue, _⟩ :=
          wp_ok (handle_answersIn h.sound henabled hawaits) hexec
        cases hlast.symm.trans hlast'
        exact hstays (Or.inl htrue.shuttingDown)
      | _ => cases hawaits

theorem worker (h : Orderly X config base past s₀ v)
    (hstep : PoolStep X Fault.Clean config late v.pool p)
    (hmoved : p.workers ≠ v.pool.workers) :
    Orderly X config base past s₀ { v with pool := p } := by
  obtain ⟨hcoordinator, sent, hchannel, hsent⟩ := hstep.of_moved hmoved
  have hrequests : p.requests = v.pool.requests ++ (sent.bind Command.awaits).toList := by
    rw [Pool.requests, hcoordinator, hchannel, List.filterMap_append, ← List.append_assoc,
      Pool.requests]
    cases sent with
    | none => rfl
    | some cmd => cases h : cmd.awaits <;> simp [h]
  have hold : ∀ cmd ∈ p.channel, cmd ∈ v.pool.channel ∨ cmd.fromWorker = true := by
    intro cmd hcmd
    rw [hchannel] at hcmd
    exact (List.mem_append.mp hcmd).imp_right fun hcmd => (hsent cmd (Option.mem_toList.mp hcmd)).1
  refine ⟨h.toBacked.worker hstep hmoved, h.started, ?_, ?_, fun ask reply hmem => ?_,
    fun hclosing => ?_, ?_, h.shut, ?_, h.fair⟩
  · exact (congrArg (Sound X config base past s₀) hcoordinator).mpr h.sound
  · change (p.requests.map _).Nodup
    rw [hrequests, List.map_append]
    refine List.Nodup.append h.requests ?_ ?_
    · cases sent.bind Command.awaits <;> simp
    · rintro reply hreply hnew
      obtain ⟨x, hx, rfl⟩ := List.mem_map.mp hnew
      obtain ⟨cmd, hcmd, hawaits⟩ := Option.bind_eq_some_iff.mp (Option.mem_toList.mp hx)
      refine (hsent cmd hcmd).2 x hawaits ?_
      rw [Pool.replies_eq]
      exact List.mem_append_left _ hreply
  · change _ ∈ p.requests
    rw [hrequests]
    exact List.mem_append_left _ (h.awaited ask reply hmem)
  · refine h.closing (hclosing.imp (fun hstopping => ?_) (Or.imp_left ?_))
    · exact (congrArg Stopping hcoordinator).mp hstopping
    · rintro ⟨reply, hreply⟩
      exact ⟨reply, (hold _ hreply).resolve_right fun hfrom => nomatch hfrom⟩
  · exact fun queue hflag => hcoordinator ▸ h.closed queue (hcoordinator ▸ hflag)
  · exact fun reply hreply => hcoordinator ▸ h.refused reply (hcoordinator ▸ hreply)

theorem begin (h : Orderly X config base past s₀ v) {ask : Ask} (held : Bool)
    (hclosing : Closing { v with calls := v.calls ++ [.begun ask], held := held } →
      held = false ∧ ∀ call ∈ v.calls ++ [.begun ask], call.isOver = true ∨ call.forShutdown) :
    Orderly X config base past s₀ { v with calls := v.calls ++ [.begun ask], held := held } where
  toBacked := h.toBacked.begin ask held
  started := h.started
  sound := h.sound
  requests := h.requests
  awaited ask' reply hmem := by
    rcases List.mem_append.mp hmem with hmem | hmem
    · exact h.awaited ask' reply hmem
    · cases List.mem_singleton.mp hmem
  closing := hclosing
  closed := h.closed
  shut := h.shut
  refused := h.refused
  fair call hcall := by
    rcases List.mem_append.mp hcall with hcall | hcall
    · exact h.fair call hcall
    · rw [List.mem_singleton.mp hcall]
      trivial

theorem close (h : Orderly X config base past s₀ v) (haccess : v.access = .handle) :
    Orderly X config base past s₀ { v with
      pool := v.pool.withCoordinator v.pool.coordinator.closeSemaphores
      shut := true } where
  toBacked := h.toBacked.close
  started := h.started
  sound := h.sound.step (.quiet (quiet_closeSemaphores _))
  requests := h.requests
  awaited := h.awaited
  closing := h.closing
  closed _ _ := Or.inl rfl
  shut _ := haccess
  refused := h.refused
  fair call hcall := (h.fair call hcall).shut

theorem step (h : Orderly X config base past s₀ v)
    (hstep : ServiceStep X Fault.Clean config late v v') : Orderly X config base past s₀ v' := by
  have hopen : v.held = true → ¬v.Closing := fun hheld hclosing =>
    Bool.false_ne_true ((h.closing hclosing).1.symm.trans hheld)
  cases hstep with
  | @call ask hask hheld =>
    refine h.begin v.held fun hclosing => absurd ?_ (hopen hheld)
    refine hclosing.imp id (Or.imp id ?_)
    rintro ⟨call, hcall, hfor⟩
    rcases List.mem_append.mp hcall with hcall | hcall
    · exact ⟨call, hcall, hfor⟩
    · rw [List.mem_singleton.mp hcall] at hfor
      exact absurd hfor hask
  | shutdown haccess hheld hover =>
    refine h.begin false fun _ => ⟨rfl, fun call hcall => ?_⟩
    rcases List.mem_append.mp hcall with hcall | hcall
    · exact Or.inl (hover call hcall)
    · rw [List.mem_singleton.mp hcall]
      exact Or.inr rfl
  | letGo hheld hover =>
    exact { h with closing := fun hclosing => absurd hclosing (hopen hheld) }
  | close haccess hheld => exact h.close haccess
  | move hcall hstep => exact h.move hcall hstep
  | coordinator hturn hclosed hrunning hfault hfresh hexec =>
    exact h.coordinator hturn hclosed (h.enabled hturn hrunning hfault hfresh) hexec
  | worker hstep hmoved => exact h.worker hstep hmoved

theorem run (h : Orderly X config base past s₀ v)
    (hrun : Service.Run X Fault.Clean config late v v') : Orderly X config base past s₀ v' := by
  induction hrun with
  | refl => exact h
  | tail _ hstep ih => exact ih.step hstep

end Orderly

end Service

open Service

theorem Ask.of_waiting {ask : Ask} {reply : Sender} {s : Coordinator}
    (h : (reply, ask.kind) ∈ s.waiting) : ask = .shutdown ∧ s.shutdownReply = some reply := by
  rcases List.mem_append.mp h with h | h <;> obtain ⟨reply', hreply, heq⟩ := List.mem_map.mp h <;>
    obtain ⟨rfl, hkind⟩ := Prod.mk.inj heq
  · cases ask <;> cases hkind
  · refine ⟨?_, Option.mem_toList.mp hreply⟩
    cases ask <;> first | rfl | cases hkind

/-- As long as the coordinator lives, no call is cut off.  One that has been sent is in the
channel, or its answer, of the right kind, is there to be read, or it is the shutdown that the
coordinator is busy with; when the loop is over only the shutdown can still be under way.  Without
an answer a call ends only because its queue is not configured, because `try_submit` found no
permit, or, for a `submit` on a handle, because of `QueueHandle::shutdown`; and no call is answered
that the process is shutting down.  The coordinator lives through its next operation unless it is
killed or a deadline lies beyond the last instant. -/
theorem calls_not_cut_off (hX : X.Lawful) (hC : X.Compact) {past : List Event} {s₀ : Coordinator}
    {access : Access} {v : Service} (hreach : Reachable X Fault.Clean config (.up past s₀ s₀))
    (hrun : Service.Run X Fault.Clean config late (Service.start access config s₀) v) :
    (∀ ask reply, .awaiting ask reply ∈ v.calls →
      (∃ cmd ∈ v.pool.channel, cmd.awaits = some (reply, ask.kind)) ∨
      (∃ msg, (reply, msg) ∈ v.pool.coordinator.sent ∧ msg.kind = ask.kind) ∨
      ask = .shutdown ∧ v.pool.coordinator.shutdownReply = some reply) ∧
    (v.pool.coordinator.exited = true →
      ∀ call ∈ v.calls, call.isOver = true ∨ call.forShutdown) ∧
    (∀ ask e, .failed ask e ∈ v.calls → Fails config v.shut ask e) ∧
    (v.shut = true → v.access = .handle) ∧
    (∀ ask reply, .answered ask reply (.job (.error .shuttingDown)) ∉ v.calls) ∧
    ∀ op env, (∀ t, ∃ fault, env.fate t = .returns fault) →
      (∀ t d, config.Waits d → (env.instant t).Fits d) →
      ∃ s, exec X config env op v.pool.coordinator = .ok () s := by
  obtain ⟨base, _, hsound, _⟩ := hreach.atLog hX hC
  have ho := (Orderly.start access (hreach.boots hX hC).1 hsound).run hrun
  refine ⟨fun ask reply hmem => ?_, fun hexited => (ho.closing (Or.inl (Or.inr hexited))).2,
    fun ask e hmem => ho.fair _ hmem, ho.shut, fun ask reply hmem => ho.fair _ hmem rfl,
    fun op env hfate hfits => exec_completes hfate hfits _⟩
  rcases List.mem_append.mp (ho.awaited ask reply hmem) with hkept | hchannel
  · rcases List.mem_append.mp hkept with hanswered | hwaiting
    · obtain ⟨⟨_, msg⟩, hmsg, heq⟩ := List.mem_map.mp hanswered
      obtain ⟨rfl, hkind⟩ := Prod.mk.inj heq
      exact Or.inr (Or.inl ⟨msg, hmsg, hkind⟩)
    · exact Or.inr (Or.inr (Ask.of_waiting hwaiting))
  · exact Or.inl (List.mem_filterMap.mp hchannel)

/-- A submission on a handle that has been shut down. -/
theorem calls_not_cut_off_shut : ∃ v, Service.Run Postcard.crates Fault.Clean mailConfig true
    (Service.start .handle mailConfig mailStart) v ∧ .failed mailAsk .shuttingDown ∈ v.calls ∧
    Fails mailConfig v.shut mailAsk .shuttingDown := by
  let shut (calls : List Call) : Service :=
    ⟨⟨mailStart.closeSemaphores, [], [], []⟩, calls, .handle, true, true⟩
  have hclose : ServiceStep Postcard.crates Fault.Clean mailConfig true
      (Service.start .handle mailConfig mailStart) (shut []) := .close rfl rfl
  have hcall : ServiceStep Postcard.crates Fault.Clean mailConfig true (shut [])
      (shut [.begun mailAsk]) := .call (fun h => nomatch h) rfl
  have hsem : mailStart.closeSemaphores.semaphores.get "mail" = some ⟨1, true⟩ := rfl
  have henter : ServiceStep Postcard.crates Fault.Clean mailConfig true (shut [.begun mailAsk])
      (shut [.acquiring ⟨"mail"⟩ ⟨[1, 2], 3⟩]) := .move (k := 0) rfl (.enter hsem)
  have hfail : ServiceStep Postcard.crates Fault.Clean mailConfig true
      (shut [.acquiring ⟨"mail"⟩ ⟨[1, 2], 3⟩]) (shut [.failed mailAsk .shuttingDown]) :=
    .move (k := 0) rfl (.closed hsem rfl)
  have hrun := (((Relation.ReflTransGen.single hclose).tail hcall).tail henter).tail hfail
  have hmem : Call.failed mailAsk .shuttingDown ∈ (shut [.failed mailAsk .shuttingDown]).calls :=
    List.mem_singleton_self _
  exact ⟨_, hrun, hmem, (calls_not_cut_off Postcard.crates_lawful Postcard.crates_compact
    (mailStart_reachable Fault.Clean) hrun).2.2.1 _ _ hmem⟩

end DurableQueue
