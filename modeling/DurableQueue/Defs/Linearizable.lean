import DurableQueue.Defs.ClientLaws

/-! The calls of all clients in one history.  A run of the service, state by state, is read as
one sequential execution on the board, in which every command about a job has its place. -/

namespace DurableQueue

open Coordinator

variable {X : Crates} {P : Fault → Prop} {config : RuntimeConfig} {late : Bool}

inductive Entry
  /-- a move that answers nobody -/
  | move (m : Move JobId Request)
  /-- a command about a job, with the moves made for it and its answer -/
  | answer (cmd : Command) (g : Grounds) (made : List (Move JobId Request))
      (result : Except Error JobRecord)
  | snapshot (reply : Sender) (stats : StatsSnapshot)

namespace Entry

/-- What an entry does on the board.  A command takes effect at once, and its answer is right
then. -/
inductive Step (config : RuntimeConfig) (b : Board JobId Request) :
    Entry → Board JobId Request → Prop
  | move {m : Move JobId Request} {b' : Board JobId Request} (h : Board.Step config.rules b m b') :
      Step config b (.move m) b'
  | answer {cmd : Command} {g : Grounds} {made : List (Move JobId Request)}
      {result : Except Error JobRecord} {b' : Board JobId Request}
      (hmade : Trace (Board.Step config.rules) b made b')
      (htrue : Truthful config g b' cmd made result) :
      Step config b (.answer cmd g made result) b'
  | snapshot (reply : Sender) (stats : StatsSnapshot) : Step config b (.snapshot reply stats) b

def reply? : Entry → Option Sender
  | .move _ => none
  | .answer cmd .. => cmd.reply?
  | .snapshot reply _ => some reply

end Entry

def WalRecord.entry (r : WalRecord) : Entry := .move r.move

def Call.reply? : Call → Option Sender
  | .awaiting _ reply | .answered _ reply _ => some reply
  | _ => none

namespace Service

/-- What a step adds to the history, read off the records that it logs and the message that it
sends last.  The leases that a submission sets off come behind it. -/
def entries (v v' : Service) : List Entry :=
  let s := v.pool.coordinator
  let s' := v'.pool.coordinator
  let recs := s'.acked.drop s.acked.length
  match v.pool.channel.head?, (s'.sent.drop s.sent.length).getLast? with
  | some cmd, some (_, .job result) =>
    .answer cmd (s.grounds s') ((recs.filter (·.grant?.isNone)).map WalRecord.move) result ::
      (recs.filter (·.grant?.isSome)).map WalRecord.entry
  | _, some (reply, .stats stats) => [.snapshot reply stats]
  | _, _ => recs.map WalRecord.entry

variable {v v' : Service} {recs : List WalRecord}

theorem entries_eq_moves {new : List (Sender × Reply)}
    (hsent : v'.pool.coordinator.sent = v.pool.coordinator.sent ++ new)
    (hlast : ∀ x, new.getLast? = some x → toClient? x = none)
    (hacked : v'.pool.coordinator.acked = v.pool.coordinator.acked ++ recs) :
    entries v v' = recs.map WalRecord.entry := by
  simp only [entries, hsent, hacked, List.drop_left]
  cases hnew : new.getLast? with
  | none => cases v.pool.channel.head? <;> rfl
  | some x =>
    obtain ⟨reply, msg⟩ := x
    have hnone := hlast _ hnew
    cases msg with
    | job | stats => cases hnone
    | work | done => cases v.pool.channel.head? <;> rfl

theorem entries_eq_snapshot {new : List (Sender × Reply)} {reply : Sender} {stats : StatsSnapshot}
    (hsent : v'.pool.coordinator.sent =
      v.pool.coordinator.sent ++ (new ++ [(reply, .stats stats)])) :
    entries v v' = [.snapshot reply stats] := by
  simp only [entries, hsent, List.drop_left, List.getLast?_concat]

theorem entries_eq_answer {new : List (Sender × Reply)} {cmd : Command} {reply : Sender}
    {result : Except Error JobRecord} {made leased : List WalRecord}
    (hcmd : v.pool.channel.head? = some cmd)
    (hsent : v'.pool.coordinator.sent = v.pool.coordinator.sent ++ (new ++ [(reply, .job result)]))
    (hacked : v'.pool.coordinator.acked = v.pool.coordinator.acked ++ (made ++ leased))
    (hmade : ∀ r ∈ made, r.grant? = none) (hleased : ∀ r ∈ leased, r.grant?.isSome) :
    entries v v' = .answer cmd (v.pool.coordinator.grounds v'.pool.coordinator)
      (made.map WalRecord.move) result :: leased.map WalRecord.entry := by
  have hnot : (made ++ leased).filter (·.grant?.isNone) = made := by
    rw [List.filter_append, List.filter_eq_self.mpr, List.filter_eq_nil_iff.mpr, List.append_nil]
    · intro r hr
      simpa [Option.isSome_iff_ne_none] using hleased r hr
    · intro r hr
      rw [hmade r hr]
      rfl
  have hgrants : (made ++ leased).filter (·.grant?.isSome) = leased := by
    rw [List.filter_append, List.filter_eq_nil_iff.mpr, List.filter_eq_self.mpr, List.nil_append]
    · exact hleased
    · intro r hr
      rw [hmade r hr]
      exact Bool.false_ne_true
  simp only [entries, hcmd, hsent, hacked, List.drop_left, List.getLast?_concat, hnot, hgrants]

end Service

theorem Truthful.started? {g : Grounds} {b : Board JobId Request} {cmd : Command}
    {made : List WalRecord} {result : Except Error JobRecord}
    (h : Truthful config g b cmd (made.map WalRecord.move) result) :
    ∀ r ∈ made, r.grant? = none := by
  have hmoves : ∀ m ∈ made.map WalRecord.move, m.started? = none := by
    generalize made.map WalRecord.move = moves at h
    cases h with
    | submitted | cancelled =>
      intro m hm
      rw [List.mem_singleton.mp hm]
      rfl
    | refused | shown | unknown | noSuchJob | ended | notLogged =>
      exact fun m hm => absurd hm List.not_mem_nil
  intro r hr
  have hnone := hmoves r.move (List.mem_map_of_mem hr)
  rwa [WalRecord.started?_move, Option.map_eq_none_iff] at hnone

namespace Service

variable {base : List WalRecord} {past : List LeaseId} {s₀ s : Coordinator} {v v' : Service}
  {env : Env} {op : Op} {p : Pool} {ask : Ask} {reply : Sender} {msg : Reply}

inductive Adds (config : RuntimeConfig) (v : Service) (s : Coordinator) : Op → List Entry → Prop
  | moves {op : Op} {recs : List WalRecord}
      (htrace : Trace (Board.Step config.rules) v.pool.coordinator.store.board
        (recs.map WalRecord.move) s.store.board)
      (hclients : s.sent.filterMap toClient? = v.pool.coordinator.sent.filterMap toClient?)
      (hother : ∀ r ∈ op.awaits, r.2 = .work ∨ r.2 = .done) :
      Adds config v s op (recs.map WalRecord.entry)
  | answer {cmd : Command} {reply : Sender} {result : Except Error JobRecord}
      {made leased : List WalRecord} {b : Board JobId Request}
      (hcmd : cmd.awaits = some (reply, .job))
      (hmade : Trace (Board.Step config.rules) v.pool.coordinator.store.board
        (made.map WalRecord.move) b)
      (htrue : Truthful config (v.pool.coordinator.grounds s) b cmd
        (made.map WalRecord.move) result)
      (hleased : Trace (Board.Step config.rules) b (leased.map WalRecord.move) s.store.board)
      (hclients : s.sent.filterMap toClient? =
        v.pool.coordinator.sent.filterMap toClient? ++ [reply])
      (hsent : (reply, .job result) ∈ s.sent) :
      Adds config v s (.handle cmd) (.answer cmd (v.pool.coordinator.grounds s)
        (made.map WalRecord.move) result :: leased.map WalRecord.entry)
  | snapshot {reply : Sender} (hstore : s.store = v.pool.coordinator.store)
      (hclients : s.sent.filterMap toClient? =
        v.pool.coordinator.sent.filterMap toClient? ++ [reply])
      (hsent : (reply, .stats v.pool.coordinator.doStats) ∈ s.sent) :
      Adds config v s (.handle (.stats reply)) [.snapshot reply v.pool.coordinator.doStats]

theorem filterMap_toClient? {new : List (Sender × Reply)} (h : ∀ x ∈ new, toClient? x = none) :
    new.filterMap toClient? = [] := List.filterMap_eq_nil_iff.mpr h

def turned (v : Service) (op : Op) (s : Coordinator) : Service :=
  { v with pool := { v.pool with coordinator := s, channel := v.pool.rest op } }

theorem Orderly.adds (h : Orderly X config base past s₀ v) (hturn : v.pool.Turn late env op)
    (henabled : op.Enabled Fault.Clean env v.pool.coordinator)
    (hexec : exec X config env op v.pool.coordinator = .ok () s) :
    Adds config v s op (entries v (v.turned op s)) := by
  have hsteps := h.exec_steps h.started henabled hexec
  obtain ⟨recs, hacked⟩ := Steps.acked_append hsteps
  have htrace := h.sound.trace hsteps hacked
  obtain ⟨new, hnone, ⟨hsent, hother⟩ | ⟨reply, msg, hawaits, hsent⟩⟩ := exec_sent_eq h.idle hexec
  · rw [entries_eq_moves hsent (fun x hx => hnone x (List.mem_of_getLast? hx)) hacked]
    refine .moves htrace ?_ hother
    rw [hsent, List.filterMap_append, filterMap_toClient? hnone, List.append_nil]
  have hclients : s.sent.filterMap toClient? = v.pool.coordinator.sent.filterMap toClient? ++
      (toClient? (reply, msg)).toList := by
    rw [hsent, List.filterMap_append, List.filterMap_append, filterMap_toClient? hnone,
      List.nil_append]
    cases msg <;> rfl
  have hmem : (reply, msg) ∈ s.sent := by
    rw [hsent]
    simp
  cases op with
  | processDueRetries | checkLeaseTimeouts | tryDispatchParkedWorkers | checkExit | hangUp =>
    cases hawaits
  | handle cmd =>
    cases msg with
    | job result =>
      obtain ⟨result', hlast, s₁, made, leased, hsteps₁, hsteps₂, hmade, hleased, htrue, hgrants⟩ :=
        wp_ok (handle_answersIn h.sound henabled hawaits) hexec
      rw [hsent, ← List.append_assoc, List.getLast?_concat] at hlast
      cases hlast
      have hboth : s.acked = v.pool.coordinator.acked ++ (made ++ leased) := by
        rw [hleased, hmade, List.append_assoc]
      rw [entries_eq_answer hturn hsent hboth htrue.started? hgrants]
      exact .answer hawaits (h.sound.trace hsteps₁ hmade) (truthful_later htrue hsteps₂)
        ((h.sound.steps hsteps₁).trace hsteps₂ hleased) hclients hmem
    | stats stats =>
      rw [entries_eq_snapshot hsent]
      cases cmd <;> cases hawaits
      cases hexec
      obtain rfl : stats = v.pool.coordinator.doStats := by
        have hlast : (v.pool.coordinator.sent ++ [(reply, Reply.stats _)]).getLast? = _ :=
          congrArg List.getLast? hsent
        rw [List.getLast?_concat, ← List.append_assoc, List.getLast?_concat] at hlast
        cases hlast
        rfl
      exact .snapshot rfl hclients hmem
    | work | done =>
      rw [entries_eq_moves hsent (fun x hx => ?_) hacked]
      · refine .moves htrace (hclients.trans (List.append_nil _)) fun r hr => ?_
        cases hr.symm.trans hawaits
        simp [Reply.kind]
      · rw [List.getLast?_concat] at hx
        cases hx
        rfl

/-! ### One sequential execution -/

theorem Entry.trace_moves {b b' : Board JobId Request} {recs : List WalRecord}
    (h : Trace (Board.Step config.rules) b (recs.map WalRecord.move) b') :
    Trace (Entry.Step config) b (recs.map WalRecord.entry) b' := by
  have hmap := h.map (f := Entry.move) fun _ _ _ hstep => Entry.Step.move hstep
  rwa [List.map_map] at hmap

theorem Adds.trace {es : List Entry} (h : Adds config v s op es) :
    Trace (Entry.Step config) v.pool.coordinator.store.board es s.store.board := by
  cases h with
  | moves htrace => exact Entry.trace_moves htrace
  | answer _ hmade htrue hleased =>
    exact (Trace.single (.answer hmade htrue)).append (Entry.trace_moves hleased)
  | snapshot hstore => exact hstore ▸ Trace.single (.snapshot _ _)

theorem Adds.clients {es : List Entry} (h : Adds config v s op es) :
    s.sent.filterMap toClient? =
      v.pool.coordinator.sent.filterMap toClient? ++ es.filterMap Entry.reply? := by
  have hmoves : ∀ recs : List WalRecord,
      (recs.map WalRecord.entry).filterMap Entry.reply? = [] := by
    intro recs
    rw [List.filterMap_map, List.filterMap_eq_nil_iff]
    exact fun _ _ => rfl
  cases h with
  | moves _ hclients => rw [hclients, hmoves, List.append_nil]
  | @answer cmd reply result made _ _ hcmd _ _ _ hclients =>
    have hreply : (Entry.answer cmd (v.pool.coordinator.grounds s) (made.map WalRecord.move)
        result).reply? = some reply := by
      cases cmd <;> cases hcmd <;> rfl
    rw [hclients, List.filterMap_cons_some hreply, hmoves]
  | snapshot _ hclients => exact hclients

theorem same_or_turned (hstep : ServiceStep X P config late v v') :
    (v'.pool.coordinator.store = v.pool.coordinator.store ∧
      v'.pool.coordinator.acked = v.pool.coordinator.acked ∧
      v'.pool.coordinator.sent = v.pool.coordinator.sent) ∨
    ∃ op env s, v.pool.Turn late env op ∧ v.pool.coordinator.exited = false ∧
      (∀ t, P (env.fate t).fault) ∧ (∀ t, v.pool.coordinator.store.get (env.uuid t) = none) ∧
      exec X config env op v.pool.coordinator = .ok () s ∧ v' = v.turned op s := by
  cases hstep with
  | call | shutdown | letGo | close => exact Or.inl ⟨rfl, rfl, rfl⟩
  | move hcall hstep =>
    left
    rcases hstep.coordinator_cases with heq | ⟨_, _, _, _, _, heq⟩ | ⟨_, _, heq⟩ <;>
      exact heq ▸ ⟨rfl, rfl, rfl⟩
  | coordinator hturn _ hrunning hfault hfresh hexec =>
    exact Or.inr ⟨_, _, _, hturn, hrunning, hfault, hfresh, hexec, rfl⟩
  | worker hstep hmoved =>
    obtain ⟨heq, _⟩ := hstep.of_moved hmoved
    exact Or.inl ⟨by rw [heq], by rw [heq], by rw [heq]⟩

theorem entries_eq_nil (hacked : v'.pool.coordinator.acked = v.pool.coordinator.acked)
    (hsent : v'.pool.coordinator.sent = v.pool.coordinator.sent) : entries v v' = [] := by
  rw [← List.append_nil v.pool.coordinator.sent] at hsent
  rw [← List.append_nil v.pool.coordinator.acked] at hacked
  exact entries_eq_moves hsent (fun x hx => nomatch hx) hacked

theorem Orderly.trace_entries (h : Orderly X config base past s₀ v)
    (hstep : ServiceStep X Fault.Clean config late v v') :
    Trace (Entry.Step config) v.pool.coordinator.store.board (entries v v')
      v'.pool.coordinator.store.board := by
  rcases same_or_turned hstep with ⟨hstore, hacked, hsent⟩ |
    ⟨op, env, s, hturn, hrunning, hfault, hfresh, hexec, rfl⟩
  · rw [entries_eq_nil hacked hsent, hstore]
    exact .nil
  · exact (h.adds hturn (h.enabled hturn hrunning hfault hfresh) hexec).trace

theorem Orderly.clients_entries (h : Orderly X config base past s₀ v)
    (hstep : ServiceStep X Fault.Clean config late v v') :
    v'.pool.coordinator.sent.filterMap toClient? =
      v.pool.coordinator.sent.filterMap toClient? ++ (entries v v').filterMap Entry.reply? := by
  rcases same_or_turned hstep with ⟨_, hacked, hsent⟩ |
    ⟨op, env, s, hturn, hrunning, hfault, hfresh, hexec, rfl⟩
  · rw [entries_eq_nil hacked hsent, hsent]
    exact (List.append_nil _).symm
  · exact (h.adds hturn (h.enabled hturn hrunning hfault hfresh) hexec).clients

theorem Orderly.clients_nodup (h : Orderly X config base past s₀ v) :
    (v.pool.coordinator.sent.filterMap toClient?).Nodup := by
  refine h.sent_nodup.sublist ?_
  rw [← List.filterMap_eq_map]
  refine Slots.filterMap_sublist (fun x reply hx => ?_) v.pool.coordinator.sent
  obtain ⟨_, msg⟩ := x
  cases msg <;> cases hx <;> rfl

/-! ### Where a call is -/

/-- The step answers the call. -/
inductive Settles (ask : Ask) (reply : Sender) (v v' : Service) : Reply → Prop
  | job {g : Grounds} {made : List (Move JobId Request)} {result : Except Error JobRecord}
      (hup : g.down = false) (h : .answer (ask.command reply) g made result ∈ entries v v') :
      Settles ask reply v v' (.job result)
  | stats (hask : ask = .stats) (h : .snapshot reply v.pool.coordinator.doStats ∈ entries v v') :
      Settles ask reply v v' (.stats v.pool.coordinator.doStats)

/-- Where a call may be that asked for `ask`, when `Done` are the answers it may have got. -/
def Tracked (ask : Ask) (Done : Sender → Reply → Prop) (p : Pool) : Call → Prop
  | .begun ask' | .sending ask' | .failed ask' _ => ask' = ask
  | .acquiring queue spec => .submit queue spec = ask
  | .awaiting ask' reply => ask' = ask ∧ (ask.command reply ∈ p.channel ∨ ask = .shutdown ∨
      ∃ msg, (reply, msg) ∈ p.coordinator.sent ∧ Done reply msg)
  | .answered ask' reply msg => ask' = ask ∧ Done reply msg
  | .joining | .leaving | .done => ask = .shutdown
  | .dropped => True

namespace Tracked

variable {Done Done' : Sender → Reply → Prop} {p' : Pool} {call call' : Call}

theorem mono (h : Tracked ask Done p call) (hdone : ∀ reply msg, Done reply msg → Done' reply msg)
    (hsent : p.coordinator.sent ⊆ p'.coordinator.sent)
    (hchannel : ∀ reply, ask.command reply ∈ p.channel → call = .awaiting ask reply →
      ask.command reply ∈ p'.channel ∨ ask = .shutdown ∨
        ∃ msg, (reply, msg) ∈ p'.coordinator.sent ∧ Done' reply msg) :
    Tracked ask Done' p' call := by
  cases call with
  | awaiting ask' reply =>
    obtain ⟨rfl, hmem | hshutdown | ⟨msg, hmsg, hanswered⟩⟩ := h
    · exact ⟨rfl, hchannel reply hmem rfl⟩
    · exact ⟨rfl, Or.inr (Or.inl hshutdown)⟩
    · exact ⟨rfl, Or.inr (Or.inr ⟨msg, hsent hmsg, hdone _ _ hanswered⟩)⟩
  | answered ask' reply msg => exact ⟨h.1, hdone _ _ h.2⟩
  | begun | acquiring | sending | joining | leaving | failed | done | dropped => exact h

theorem own (ho : Orderly X config base past s₀ v) (h : Tracked ask Done v.pool call)
    (hstep : CallStep config v.calls v.pool call p call') : Tracked ask Done p call' := by
  cases hstep with
  | notFound | enter | acquire | closed | tryAcquire | full | proceed | sendFails => exact h
  | lost => exact h.1
  | @send ask' reply =>
    obtain rfl : ask' = ask := h
    exact ⟨rfl, Or.inl (List.mem_append_right _ (List.mem_singleton_self _))⟩
  | @replied ask' reply msg hask hreply =>
    obtain ⟨rfl, hmem | hshutdown | ⟨msg', hmsg', hanswered⟩⟩ := h
    · exact absurd hmem (ho.not_in_channel hreply)
    · exact absurd hshutdown hask
    · rw [ho.sent_unique hreply hmsg']
      exact ⟨rfl, hanswered⟩
  | shutdownUnsent => exact (h : Ask.shutdown = ask).symm
  | shutdownReplied => exact h.1.symm
  | joined | left => exact h
  | drop => trivial

theorem settled (ho : Orderly X config base past s₀ v) {reply : Sender} (hask : ask ≠ .shutdown)
    (hup : v.pool.coordinator.shuttingDown = false)
    (hturn : v.pool.Turn late env (.handle (ask.command reply)))
    (henabled : (Op.handle (ask.command reply)).Enabled Fault.Clean env v.pool.coordinator)
    (hexec : exec X config env (.handle (ask.command reply)) v.pool.coordinator = .ok () s) :
    ∃ msg, (reply, msg) ∈ s.sent ∧
      Settles ask reply v (v.turned (.handle (ask.command reply)) s) msg := by
  have hadds := ho.adds hturn henabled hexec
  generalize hes : entries v (v.turned (.handle (ask.command reply)) s) = es at hadds
  generalize hop : Op.handle (ask.command reply) = op at hadds
  cases hadds with
  | moves _ _ hother =>
    have hkind := hother (reply, ask.kind) (hop ▸ ask.awaits_command reply)
    cases ask <;> first | exact absurd rfl hask | cases hkind <;> contradiction
  | answer hcmd _ _ _ _ hsent =>
    obtain rfl := Op.handle.inj hop
    obtain ⟨rfl, _⟩ := Prod.mk.inj (Option.some.inj ((ask.awaits_command reply).symm.trans hcmd))
    have hmem := List.mem_of_mem_head? (congrArg List.head? hes)
    exact ⟨_, hsent, .job hup hmem⟩
  | snapshot _ _ hsent =>
    have hstats := Op.handle.inj hop
    cases ask <;> cases hstats
    exact ⟨_, hsent, .stats rfl (List.mem_of_mem_head? (congrArg List.head? hes))⟩

theorem step (ho : Orderly X config base past s₀ v) {k : Nat} (hcall : v.calls[k]? = some call)
    (h : Tracked ask Done v.pool call) (hstep : ServiceStep X Fault.Clean config late v v') :
    ∃ call', v'.calls[k]? = some call' ∧
      Tracked ask (fun reply msg => Done reply msg ∨ Settles ask reply v v' msg) v'.pool call' := by
  have hlt : k < v.calls.length := (List.getElem?_eq_some_iff.mp hcall).1
  cases hstep with
  | call | shutdown =>
    exact ⟨call, (List.getElem?_append_left hlt).trans hcall,
      h.mono (fun _ _ => Or.inl) (List.Subset.refl _) fun _ hmem _ => Or.inl hmem⟩
  | letGo | close =>
    exact ⟨call, hcall,
      h.mono (fun _ _ => Or.inl) (List.Subset.refl _) fun _ hmem _ => Or.inl hmem⟩
  | @move j call₁ call₁' p hcall₁ hstep =>
    by_cases hjk : j = k
    · subst hjk
      cases hcall.symm.trans hcall₁
      refine ⟨call₁', List.getElem?_set_self hlt, ?_⟩
      exact (own ho h hstep).mono (fun _ _ => Or.inl) (List.Subset.refl _)
        fun _ hmem _ => Or.inl hmem
    · refine ⟨call, (List.getElem?_set_ne hjk).trans hcall,
        h.mono (fun _ _ => Or.inl) ?_ fun reply hmem _ => Or.inl ?_⟩
      · change _ ⊆ p.coordinator.sent
        rw [hstep.silent.sent]
        exact List.Subset.refl _
      · rcases hstep.channel_cases with hchannel | ⟨_, _, _, _, rfl, _⟩
        · exact hchannel ▸ hmem
        · exact List.mem_append_left _ hmem
  | @coordinator op env s hturn hclosed hrunning hfault hfresh hexec =>
    refine ⟨call, hcall,
      h.mono (fun _ _ => Or.inl) (exec_sent ho.idle hexec).1 fun reply hmem hawaiting => ?_⟩
    have hrest : ask.command reply ∈ v.pool.rest op ∨ op = .handle (ask.command reply) := by
      cases op with
      | handle cmd =>
        obtain ⟨tail, htail⟩ := List.head?_eq_some_iff.mp hturn
        rw [htail] at hmem
        rw [Pool.rest, htail]
        exact (List.mem_cons.mp hmem).symm.imp_right fun heq => congrArg Op.handle heq.symm
      | _ => exact Or.inl hmem
    rcases hrest with hrest | rfl
    · exact Or.inl hrest
    · by_cases hask : ask = .shutdown
      · exact Or.inr (Or.inl hask)
      · -- a call that waits for its answer keeps the process from shutting down
        have hopen := ho.not_closing (List.mem_of_getElem? hcall) (by rw [hawaiting]; rfl)
          (by rw [hawaiting]; exact hask)
        have hup : v.pool.coordinator.shuttingDown = false := by
          rw [← Bool.not_eq_true]
          exact fun hdown => hopen (Or.inl (Or.inl hdown))
        have henabled := ho.enabled hturn hrunning hfault hfresh
        obtain ⟨msg, hmsg, hsettles⟩ := settled ho hask hup hturn henabled hexec
        exact Or.inr (Or.inr ⟨msg, hmsg, Or.inr hsettles⟩)
  | worker hstep hmoved =>
    obtain ⟨hcoordinator, sent, hchannel, _⟩ := hstep.of_moved hmoved
    refine ⟨call, hcall, h.mono (fun _ _ => Or.inl) ?_ fun reply hmem _ => Or.inl ?_⟩
    · exact (congrArg Coordinator.sent hcoordinator).symm ▸ List.Subset.refl _
    · exact hchannel ▸ List.mem_append_left _ hmem

variable {run : Nat → Service} {n : Nat}

theorem along (ho : ∀ i ≤ n, Orderly X config base past s₀ (run i))
    (hsteps : ∀ i < n, ServiceStep X Fault.Clean config late (run i) (run (i + 1))) {k i j : Nat}
    (hbegin : (run i).calls[k]? = some (.begun ask)) (hij : i ≤ j) (hj : j ≤ n) :
    ∃ call, (run j).calls[k]? = some call ∧ Tracked ask
      (fun reply msg => ∃ l, i ≤ l ∧ l < j ∧ Settles ask reply (run l) (run (l + 1)) msg)
      (run j).pool call := by
  induction j, hij using Nat.le_induction with
  | base => exact ⟨_, hbegin, rfl⟩
  | succ j hij ih =>
    obtain ⟨call, hcall, htracked⟩ := ih (Nat.le_of_succ_le hj)
    obtain ⟨call', hcall', htracked'⟩ :=
      htracked.step (ho j (Nat.le_of_succ_le hj)) hcall (hsteps j hj)
    refine ⟨call', hcall', htracked'.mono ?_ (List.Subset.refl _) fun _ hmem _ => Or.inl hmem⟩
    rintro reply msg (⟨l, hil, hlj, hsettles⟩ | hsettles)
    · exact ⟨l, hil, Nat.lt_succ_of_lt hlj, hsettles⟩
    · exact ⟨j, hij, Nat.lt_succ_self j, hsettles⟩

end Tracked

/-! ### Whose an answer is -/

structure Owned (v : Service) : Prop where
  nodup : (v.calls.filterMap Call.reply?).Nodup
  asked : ∀ reply ∈ v.calls.filterMap Call.reply?, reply ∈ v.pool.requests.map Prod.fst

namespace Owned

theorem start (access : Access) : Owned (Service.start access config s₀) :=
  ⟨List.nodup_nil, fun _ h => absurd h List.not_mem_nil⟩

theorem of_subperm (h : Owned v)
    (hcalls : (v'.calls.filterMap Call.reply?).Subperm (v.calls.filterMap Call.reply?))
    (hasked : v.pool.requests ⊆ v'.pool.requests) : Owned v' where
  nodup := by
    obtain ⟨l, hperm, hsub⟩ := hcalls
    exact hperm.nodup_iff.mp (h.nodup.sublist hsub)
  asked reply hreply := List.map_subset _ hasked (h.asked reply (hcalls.subset hreply))

theorem move (h : Owned v) {k : Nat} {call call' : Call} (hcall : v.calls[k]? = some call)
    (hstep : CallStep config v.calls v.pool call p call') :
    Owned { v with pool := p, calls := v.calls.set k call' } := by
  rcases hstep.channel_cases with hchannel | ⟨ask, reply, rfl, rfl, rfl, hnew⟩
  · have hrequests := hstep.requests_eq hchannel
    refine h.of_subperm ?_ (hrequests ▸ List.Subset.refl _)
    have hcases : call'.reply? = call.reply? ∨ call'.reply? = none := by
      cases hstep with
      | send => exact absurd hchannel (by simp [Pool.push])
      | replied => exact Or.inl rfl
      | _ => exact Or.inr rfl
    rcases hcases with hsame | hnone
    · exact (Slots.filterMap_set_same hcall hsame).subperm
    · have hperm := Slots.filterMap_set_perm (f := Call.reply?) (b := call') hcall
      rw [hnone, Option.toList_none, List.append_nil] at hperm
      exact (List.sublist_append_left _ _).subperm.trans hperm.subperm
  · have hperm := Slots.filterMap_set_add (f := Call.reply?) (b := .awaiting ask reply)
      hcall rfl rfl
    rw [Pool.replies_eq, List.mem_append, not_or] at hnew
    have hmap : (v.pool.push (ask.command reply)).requests.map Prod.fst =
        v.pool.requests.map Prod.fst ++ [reply] := by
      rw [Pool.requests_push, Ask.awaits_command, List.map_append]
      rfl
    refine ⟨hperm.nodup_iff.mpr ?_, fun reply' hreply' => ?_⟩
    · refine List.Nodup.append h.nodup (List.nodup_singleton _) (List.disjoint_singleton.mpr ?_)
      exact fun hmem => hnew.1 (h.asked reply hmem)
    · change reply' ∈ (v.pool.push _).requests.map Prod.fst
      rw [hmap]
      exact (List.mem_append.mp (hperm.mem_iff.mp hreply')).elim
        (fun hmem => List.mem_append_left _ (h.asked reply' hmem)) (List.mem_append_right _)

theorem step (ho : Orderly X config base past s₀ v) (h : Owned v)
    (hstep : ServiceStep X Fault.Clean config late v v') : Owned v' := by
  cases hstep with
  | call | shutdown =>
    refine h.of_subperm ?_ (List.Subset.refl _)
    rw [List.filterMap_append]
    exact (List.append_nil _).symm ▸ List.Subperm.refl _
  | letGo | close => exact h.of_subperm (List.Subperm.refl _) (List.Subset.refl _)
  | move hcall hstep => exact h.move hcall hstep
  | coordinator hturn _ _ _ _ hexec =>
    exact h.of_subperm (List.Subperm.refl _) (Pool.exec_requests ho.idle hturn hexec).symm.subset
  | @worker p hstep hmoved =>
    obtain ⟨hcoordinator, sent, hchannel, _⟩ := hstep.of_moved hmoved
    refine h.of_subperm (List.Subperm.refl _) ?_
    change v.pool.requests ⊆ p.requests
    rw [Pool.requests, Pool.requests, hcoordinator, hchannel, List.filterMap_append,
      ← List.append_assoc]
    exact List.subset_append_left _ _

end Owned

end Service

open Service

/-- However the clients, the workers and the coordinator take turns, and over any number of
restarts before: the run is one sequential execution on the board.  Every call that returns with
an answer has an entry of its own in it, made at a step between the call and its return; the
entry holds the command, the moves made for it and the answer, which is right there. -/
theorem calls_linearizable (hX : X.Lawful) (hC : X.Compact) {past : List Event}
    {s₀ : Coordinator} {access : Access} {run : Nat → Service} {n : Nat}
    (hreach : Reachable X Fault.Clean config (.up past s₀ s₀))
    (hstart : run 0 = Service.start access config s₀)
    (hsteps : ∀ i < n, ServiceStep X Fault.Clean config late (run i) (run (i + 1))) :
    Trace (Entry.Step config) s₀.store.board (history entries run n)
      (run n).pool.coordinator.store.board ∧
    ((history entries run n).filterMap Entry.reply?).Nodup ∧
    ((run n).calls.filterMap Call.reply?).Nodup ∧
    ∀ (i j k : Nat) ask ask' reply msg, i ≤ j → j ≤ n →
      (run i).calls[k]? = some (.begun ask) → (run j).calls[k]? = some (.answered ask' reply msg) →
      ask' = ask ∧ ∃ l, i ≤ l ∧ l < j ∧ Settles ask reply (run l) (run (l + 1)) msg := by
  obtain ⟨base, _, hsound, _⟩ := hreach.atLog hX hC
  have hstart' : (run 0).pool.coordinator = s₀ := hstart ▸ coordinator_start access config s₀
  have ho : ∀ i ≤ n, Orderly X config base (past.filterMap Event.asEnded) s₀ (run i) := by
    intro i hi
    have hrun := reaches_of_steps fun j hj => hsteps j (hj.trans_le hi)
    exact (Orderly.start access (hreach.boots hX hC).1 hsound).run (hstart ▸ hrun)
  have howned : ∀ i ≤ n, Owned (run i) := by
    intro i hi
    induction i with
    | zero => exact hstart ▸ Owned.start access
    | succ i ih =>
      exact (ih (Nat.le_of_succ_le hi)).step (ho i (Nat.le_of_succ_le hi)) (hsteps i hi)
  refine ⟨?_, ?_, (howned n le_rfl).nodup, ?_⟩
  · have htrace := trace_history (fun v : Service => v.pool.coordinator.store.board) fun i hi =>
      (ho i hi.le).trace_entries (hsteps i hi)
    rwa [hstart'] at htrace
  · have hclients := filterMap_history
      (fun v : Service => v.pool.coordinator.sent.filterMap toClient?) fun i hi =>
      (ho i hi.le).clients_entries (hsteps i hi)
    have hnodup := (ho n le_rfl).clients_nodup
    rw [hclients] at hnodup
    exact hnodup.of_append_right
  · intro i j k ask ask' reply msg hij hj hbegin hend
    obtain ⟨call, hcall, htracked⟩ := Tracked.along ho hsteps hbegin hij hj
    cases hcall.symm.trans hend
    exact htracked

/-- The client is told of its job, which had not been there before. -/
theorem calls_linearizable_mail :
    ∃ l, 1 ≤ l ∧ l < 6 ∧ Settles mailAsk 0 (mailCourse l) (mailCourse (l + 1)) mailReply :=
  ((calls_linearizable Postcard.crates_lawful Postcard.crates_compact
    (mailStart_reachable Fault.Clean)
    (show mailCourse 0 = Service.start .runtime mailConfig mailStart from rfl)
    (mailCourse_steps trivial)).2.2.2 1 6 0 mailAsk mailAsk 0 mailReply
    (by decide) le_rfl rfl rfl).2

end DurableQueue
