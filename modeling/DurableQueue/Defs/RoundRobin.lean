import DurableQueue.Defs.Dispatch

/-! The rotation among the queues, over the calls of `try_lease_job` that a process makes. -/

namespace DurableQueue

structure LeaseCall where
  before : Coordinator
  found : Option LeasedJob
  after : Coordinator

namespace Coordinator

/-- How a process gets from one state to another, told by its calls of `try_lease_job`.
Between the calls it takes steps of any kind, but it logs no lease there and leaves the
cursor where it is. -/
inductive Calls (X : Crates) (P : Fault → Prop) (config : RuntimeConfig) :
    Coordinator → List LeaseCall → Coordinator → Prop
  | nil {s : Coordinator} : Calls X P config s [] s
  | other {s s₁ s' : Coordinator} {calls : List LeaseCall}
      (hsteps : StepsOf X P (fun _ r => r.leasedEpoch = none) s s₁)
      (hcursor : s₁.nextQueueIdx = s.nextQueueIdx) (h : Calls X P config s₁ calls s') :
      Calls X P config s calls s'
  | call {s s₁ s' : Coordinator} {calls : List LeaseCall} {env : Env} {found : Option LeasedJob}
      (hP : ∀ t, P (env.fate t).fault) (hcall : tryLeaseJob X config env s = .ok found s₁)
      (h : Calls X P config s₁ calls s') : Calls X P config s (⟨s, found, s₁⟩ :: calls) s'

variable {X : Crates} {P : Fault → Prop} {config : RuntimeConfig} {env : Env}
  {s₀ s s' : Coordinator} {calls : List LeaseCall}

namespace Calls

theorem append {s₁ : Coordinator} {calls' : List LeaseCall} (h : Calls X P config s calls s₁)
    (h' : Calls X P config s₁ calls' s') : Calls X P config s (calls ++ calls') s' := by
  induction h with
  | nil => exact h'
  | other hsteps hcursor _ ih => exact .other hsteps hcursor (ih h')
  | call hP hcall _ ih => exact .call hP hcall (ih h')

theorem split {pre post : List LeaseCall} (h : Calls X P config s calls s')
    (heq : calls = pre ++ post) :
    ∃ s₁, Calls X P config s pre s₁ ∧ Calls X P config s₁ post s' := by
  induction h generalizing pre with
  | nil =>
    obtain ⟨rfl, rfl⟩ := List.append_eq_nil_iff.mp heq.symm
    exact ⟨_, .nil, .nil⟩
  | other hsteps hcursor _ ih =>
    obtain ⟨s₁, hpre, hpost⟩ := ih heq
    exact ⟨s₁, .other hsteps hcursor hpre, hpost⟩
  | call hP hcall h ih =>
    cases pre with
    | nil =>
      rw [List.nil_append] at heq
      subst heq
      exact ⟨_, .nil, .call hP hcall h⟩
    | cons c pre =>
      rw [List.cons_append, List.cons.injEq] at heq
      obtain ⟨rfl, heq⟩ := heq
      obtain ⟨s₁, hpre, hpost⟩ := ih heq
      exact ⟨s₁, .call hP hcall hpre, hpost⟩

theorem steps (h : Calls X P config s calls s') : Steps X P s s' := by
  induction h with
  | nil => exact .refl
  | other hsteps _ _ ih => exact (StepsOf.steps hsteps).trans ih
  | call hP hcall _ ih =>
    have hlogs := wp_ok (tryLeaseJob_logs (A := fun _ _ => True) hP fun _ _ _ _ _ => trivial) hcall
    exact (StepsOf.steps hlogs.1).trans ih

end Calls

/-! ## Every run is told by its calls -/

variable (X P config) in
def Told (s s' : Coordinator) : Prop := ∃ calls, Calls X P config s calls s'

theorem Told.of_star (h : Relation.ReflTransGen (Told X P config) s s') : Told X P config s s' := by
  induction h with
  | refl => exact ⟨[], .nil⟩
  | tail _ hstep ih =>
    obtain ⟨calls, hcalls⟩ := ih
    obtain ⟨calls', hcalls'⟩ := hstep
    exact ⟨calls ++ calls', hcalls.append hcalls'⟩

theorem Told.other (hsteps : StepsOf X P (fun _ r => r.leasedEpoch = none) s s')
    (hcursor : s'.nextQueueIdx = s.nextQueueIdx) : Told X P config s s' :=
  ⟨[], .other hsteps hcursor .nil⟩

theorem Told.quiet (h : Quiet s s') (hcursor : s'.nextQueueIdx = s.nextQueueIdx) :
    Told X P config s s' :=
  .other (.single (.quiet h)) hcursor

abbrev Tells (X : Crates) (P : Fault → Prop) (config : RuntimeConfig) {α : Type} (m : CoordM α)
    (s : Coordinator) : Prop :=
  Does (Told X P config) (fun _ _ _ => True) m (fun _ _ => True) s s

theorem tells_of_logs {α : Type} {m : CoordM α} {Q : α → Coordinator → Prop}
    {A : Coordinator → WalRecord → Prop} (hlogs : Logs X P A m Q s s)
    (hA : ∀ s r, A s r → r.leasedEpoch = none) (hcursor : Keeps nextQueueIdx m) :
    Tells X P config m s := by
  refine wp_intro (fun a s' h => ⟨?_, trivial⟩) fun _ _ _ => ⟨s, .refl, trivial⟩
  have hsteps : StepsOf X P (fun _ r => r.leasedEpoch = none) s s' :=
    StepsOf.mono (wp_ok hlogs h).1 hA
  exact .single (.other hsteps (hcursor.ok h))

section

variable (hP : ∀ t, P (env.fate t).fault)

include hP

theorem tryLeaseJob_tells : Tells X P config (tryLeaseJob X config env) s :=
  wp_intro (fun _ _ h => ⟨.single ⟨_, .call hP h .nil⟩, trivial⟩) fun _ _ _ => ⟨s, .refl, trivial⟩

theorem tryDispatchParkedWorkers_tells :
    Tells X P config (tryDispatchParkedWorkers X config env) s :=
  tryDispatchParkedWorkers_does (fun _ _ => tryLeaseJob_tells hP) .quiet

theorem doFetchWork_tells (reply : Sender) :
    Tells X P config (doFetchWork X config env reply) s :=
  doFetchWork_does reply (fun _ _ => tryLeaseJob_tells hP) .quiet

theorem doSubmit_tells {queue : QueueName} {permit : OwnedSemaphorePermit}
    (hfresh : ∀ t, s.store.get (env.uuid t) = none) (hpermit : permit ∈ s.inFlight)
    (hfor : permit.queue = queue.asStr) (spec : JobSpec) :
    Does (Told X P config) (fun _ _ _ => True) (doSubmit X config env queue spec permit)
      (fun result s' => (∃ e, result = .error e) → permit ∈ s'.inFlight) s s := by
  refine doSubmit_does hP hfresh hpermit hfor spec (fun s' hsteps hcursor => ?_)
    (fun _ _ _ _ => trivial) fun _ => tryDispatchParkedWorkers_tells hP
  refine .single (.other (StepsOf.mono hsteps ?_) hcursor)
  rintro s₁ _ ⟨id, t, rfl⟩
  rfl

end

theorem exec_cursor {op : Op} (hop : op.leases = false) :
    Keeps nextQueueIdx (exec X config env op) := by
  rcases steers_cases op with hsteers | rfl | ⟨reply, rfl⟩
  · exact keeps_cursor (exec_keeps hsteers hop)
  · intro s
    refine (wp_bind _ _).mpr (wp_get.mpr ?_)
    split
    · rfl
    · split
      · rfl
      · refine (wp_bind _ _).mpr (wp_draw.mpr ?_)
        split
        · obtain ⟨_, _, _, _, heq, _⟩ := forceShutdown_frame { s with tick := s.tick + 1 }
          refine (wp_modify _).mpr ?_
          rw [heq]
        · rfl
  · refine .bind .of_get fun s => ?_
    split
    · exact .of_modify fun _ => rfl
    · refine .bind (.of_modify fun _ => rfl) fun _ => .bind (.of_modify fun _ => rfl) fun _ =>
        .bind .of_get fun s => ?_
      split
      · exact .of_modify fun _ => rfl
      · exact .bind (keeps_cursor (nowPlus_keeps _)) fun _ => .of_modify fun _ => rfl

theorem exec_tells (hs : Placement config s) {op : Op} (h : op.Enabled P env s) :
    Tells X P config (exec X config env op) s := by
  cases hop : op.leases with
  | false =>
    refine tells_of_logs (exec_logs hs h) ?_ (exec_cursor hop)
    intro s' r hr
    cases hr <;> first | rfl | cases hop
  | true =>
    match op, hop with
    | .tryDispatchParkedWorkers, _ => exact tryDispatchParkedWorkers_tells h.fault
    | .handle (.fetchWork reply), _ => exact doFetchWork_tells h.fault reply
    | .handle (.submit queue spec permit reply), _ =>
      obtain ⟨hpermit, hfor⟩ := h.holds
      have hsubmit : Does (Told X P config) (fun _ _ _ => True)
          (submitResult X config env queue spec permit)
          (fun result s' => (∃ e, result = .error e) → permit ∈ s'.inFlight) s s := by
        refine .get_bind ?_
        split
        · exact .of_pure .refl fun _ => hpermit
        · exact doSubmit_tells h.fault h.fresh hpermit hfor spec
      refine .bind hsubmit ?_
      intro result s₁ _ hkeep
      refine .modify_bind ?_
      cases result with
      | ok job => exact .of_modify (.single (.quiet { Quiet.refl s₁ with } rfl)) trivial
      | error e =>
        have hreturn : Told X P config s₁ (s₁.returnPermit permit) :=
          .other (.single (.silent (.returnPermit (hkeep ⟨e, rfl⟩)) rfl rfl)) rfl
        refine .of_modify ((Relation.ReflTransGen.single hreturn).tail (.quiet ?_ rfl)) trivial
        exact { Quiet.refl (s₁.returnPermit permit) with }

theorem Run.told (hs : Placement config s) (hrun : Run X P config s s') : Told X P config s s' := by
  induction hrun with
  | refl => exact ⟨[], .nil⟩
  | @tail s₁ s₂ hrun hstep ih =>
    obtain ⟨calls, hcalls⟩ := ih
    have hs₁ : Placement config s₁ := Steps.placement hcalls.steps hs
    have hlast : Told X P config s₁ s₂ := by
      cases hstep with
      | acquire hsem havail =>
        exact .other (.single (.silent (.acquire hsem havail) rfl rfl)) rfl
      | abandon hpermit => exact .other (.single (.silent (.returnPermit hpermit) rfl rfl)) rfl
      | exec henabled hexec => exact .of_star (wp_ok (exec_tells hs₁ henabled) hexec).1
    obtain ⟨calls', hcalls'⟩ := hlast
    exact ⟨calls ++ calls', hcalls.append hcalls'⟩

/-! ## Fairness -/

/-- One call: a queue with work that is not served comes closer to the cursor if the call is
successful; otherwise the cursor has gone all the way round. -/
theorem Search.distance {n i : Nat} {q : String} {found : Option LeasedJob}
    (h : Search s n n s' found) (hidx : s.nextQueueIdx < n) (hi : i < n)
    (hq : s.queueOrder.getD i "" = q) (hready : found.isSome → s.HasReady q)
    (hother : ∀ job, found = some job → job.context.queue.asStr ≠ q) :
    Rotation.distance n s'.nextQueueIdx i + (if found.isSome then 1 else 0) ≤
      Rotation.distance n s.nextQueueIdx i := by
  cases h with
  | @found job k hk hpassed hqueue hcursor =>
    have hturn : Rotation.Turn n s.ReadyAt s.nextQueueIdx ((s.nextQueueIdx + k) % n)
        s'.nextQueueIdx := ⟨k, hk, hpassed, rfl, hcursor⟩
    have hbusy : s.ReadyAt i := by
      rw [ReadyAt, hq]
      exact hready rfl
    refine hturn.distance_lt hidx hi hbusy fun hserved => hother job rfl ?_
    rw [hqueue, hserved, hq]
  | nothing hpassed hcursor =>
    rw [hcursor, Nat.add_mod_right, Nat.mod_eq_of_lt hidx]
    rfl

theorem Calls.distance {n i : Nat} {q : String} (h : Calls X P config s calls s')
    (hs : Placement config s) (hn : s.queueOrder.length = n) (hidx : s.nextQueueIdx < n)
    (hi : i < n) (hq : s.queueOrder.getD i "" = q)
    (hpersist : ∀ c ∈ calls, LeasesPersist c.before c.after)
    (hready : ∀ c ∈ calls, c.found.isSome → c.before.HasReady q)
    (hother : ∀ c ∈ calls, ∀ job, c.found = some job → job.context.queue.asStr ≠ q) :
    calls.countP (·.found.isSome) ≤ Rotation.distance n s.nextQueueIdx i := by
  induction h with
  | nil => exact Nat.zero_le _
  | other hsteps hcursor _ ih =>
    have horder := Steps.queueOrder (StepsOf.steps hsteps)
    rw [← hcursor]
    exact ih (Steps.placement (StepsOf.steps hsteps) hs) (by rwa [horder]) (by rwa [hcursor])
      (by rwa [horder]) hpersist hready hother
  | @call s s₁ _ calls env found hP hcall h ih =>
    have hsteps := StepsOf.steps (tryLeaseJob_steps hcall)
    have horder := Steps.queueOrder hsteps
    subst hn
    have hsearch := wp_ok (tryLeaseJob_search hs hidx) hcall (hpersist _ List.mem_cons_self)
    have hcloser := hsearch.distance hidx hi hq (hready _ List.mem_cons_self)
      (hother _ List.mem_cons_self)
    have hinside : s₁.nextQueueIdx < s.queueOrder.length := by
      rcases Steps.cursorInside hsteps (Or.inr hidx) with hnil | hlt
      · rw [horder] at hnil
        rw [hnil] at hidx
        cases hidx
      · rwa [horder] at hlt
    have hrest := ih (Steps.placement hsteps hs) (by rw [horder]) hinside (by rwa [horder])
      (fun c hc => hpersist c (List.mem_cons_of_mem _ hc))
      (fun c hc => hready c (List.mem_cons_of_mem _ hc))
      (fun c hc => hother c (List.mem_cons_of_mem _ hc))
    rw [List.countP_cons]
    exact (Nat.add_le_add_right hrest _).trans hcloser

/-- Every run is told by its calls of `try_lease_job`, and among any calls of a run that
follow each other and of which as many are successful as there are queues, one leases a job
of a given queue, if that queue has work whenever a call is successful. -/
theorem rotation_serves (hstart : Started X config s₀) :
    (∀ s, Run X P config s₀ s → ∃ calls, Calls X P config s₀ calls s) ∧
    ∀ s before window after q, Calls X P config s₀ (before ++ window ++ after) s →
      q ∈ config.queueNames → (∀ c ∈ window, LeasesPersist c.before c.after) →
      (∀ c ∈ window, c.found.isSome → c.before.HasReady q) →
      config.queues.length ≤ window.countP (·.found.isSome) →
      ∃ c ∈ window, ∃ job, c.found = some job ∧ job.context.queue.asStr = q := by
  refine ⟨fun s hrun => Run.told hstart.placement hrun, ?_⟩
  intro s before window after q hcalls hq hpersist hready hmany
  obtain ⟨s₂, hbefore, _⟩ := hcalls.split rfl
  obtain ⟨s₁, hbefore, hwindow⟩ := hbefore.split rfl
  have hsteps := hbefore.steps
  obtain ⟨hnames, hinside⟩ := hstart.queueOrder
  have horder : s₁.queueOrder = config.queueNames := (Steps.queueOrder hsteps).trans hnames
  obtain ⟨i, hi, hget⟩ := List.getElem_of_mem hq
  have hn : s₁.queueOrder.length = config.queueNames.length := congrArg List.length horder
  have hidx : s₁.nextQueueIdx < config.queueNames.length := by
    rcases Steps.cursorInside hsteps hinside with hnil | hlt
    · rw [← horder, hnil] at hi
      cases hi
    · rwa [hn] at hlt
  by_contra hnever
  push Not at hnever
  have hcount := hwindow.distance (Steps.placement hsteps hstart.placement) hn hidx hi
    (by rw [horder, List.getD_eq_getElem?_getD, List.getElem?_eq_getElem hi, hget]; rfl)
    hpersist hready hnever
  have hlt := Rotation.distance_lt (c := s₁.nextQueueIdx) hi
  rw [RuntimeConfig.queueNames, List.length_map] at hlt hcount
  omega

def duoConfig : RuntimeConfig :=
  { mailConfig with queues := [⟨⟨"mail"⟩, 2⟩, ⟨⟨"sms"⟩, 2⟩] }

def duoStart : Coordinator :=
  newWithRecovery mailBoot duoConfig (.wal WriterThread.fresh) (newSemaphores duoConfig) none

def duoReady : Coordinator :=
  submitJob duoConfig "sms" ⟨3⟩ (submitJob duoConfig "mail" ⟨2⟩
    (submitJob duoConfig "mail" ⟨1⟩ duoStart))

theorem duoReady_run : Run Postcard.crates Fault.Clean duoConfig duoStart duoReady :=
  ((submitJob_run trivial "mail" ⟨1⟩ rfl (by decide) rfl rfl rfl rfl).trans
    (submitJob_run trivial "mail" ⟨2⟩ rfl (by decide) rfl rfl rfl rfl)).trans
    (submitJob_run trivial "sms" ⟨3⟩ rfl (by decide) rfl rfl rfl rfl)

def duoLease (s : Coordinator) : Coordinator :=
  finalState (tryLeaseJob Postcard.crates duoConfig (mailEnv ⟨9⟩ .none)) s

def duoFirst : LeaseCall :=
  ⟨duoReady, some ⟨⟨⟨1⟩, ⟨"mail"⟩, [1, 2], 1, 3, ⟨1⟩⟩, ⟨1⟩⟩, duoLease duoReady⟩

def duoSecond : LeaseCall :=
  ⟨duoLease duoReady, some ⟨⟨⟨3⟩, ⟨"sms"⟩, [1, 2], 1, 3, ⟨2⟩⟩, ⟨2⟩⟩, duoLease (duoLease duoReady)⟩

theorem hasReady_of_front {q : String} (id : JobId) (rest : List JobId)
    (hready : (s.queues.get q).map (·.ready) = some (id :: rest))
    (hstate : (s.store.get id).map (·.state) = some .queued) : s.HasReady q := by
  obtain ⟨qs, hqs, hready⟩ := Option.map_eq_some_iff.mp hready
  obtain ⟨job, hjob, hstate⟩ := Option.map_eq_some_iff.mp hstate
  exact ⟨qs, hqs, id, hready ▸ List.mem_cons_self, job, hjob, hstate⟩

/-- With two jobs in the first queue and one in the second, two calls are enough for the
second. -/
theorem rotation_serves_duo :
    (∃ calls, Calls Postcard.crates Fault.Clean duoConfig duoStart (calls ++ [duoFirst, duoSecond])
      (duoLease (duoLease duoReady))) ∧
    ∃ c ∈ [duoFirst, duoSecond], ∃ job, c.found = some job ∧ job.context.queue.asStr = "sms" := by
  have hstart : Started Postcard.crates duoConfig duoStart := .fresh mailBoot _ _
  obtain ⟨htold, hserves⟩ := rotation_serves (P := Fault.Clean) hstart
  obtain ⟨calls, hcalls⟩ := htold duoReady duoReady_run
  have hfirst : tryLeaseJob Postcard.crates duoConfig (mailEnv ⟨9⟩ .none) duoReady =
      .ok duoFirst.found (duoLease duoReady) := eq_ok_of_value (by decide +kernel)
  have hsecond : tryLeaseJob Postcard.crates duoConfig (mailEnv ⟨9⟩ .none) (duoLease duoReady) =
      .ok duoSecond.found (duoLease (duoLease duoReady)) := eq_ok_of_value (by decide +kernel)
  have hP : ∀ t, ((mailEnv ⟨9⟩ .none).fate t).fault.Clean := fun _ => trivial
  have hpair : Calls Postcard.crates Fault.Clean duoConfig duoReady [duoFirst, duoSecond]
      (duoLease (duoLease duoReady)) := .call hP hfirst (.call hP hsecond .nil)
  have hall := hcalls.append hpair
  refine ⟨⟨calls, hall⟩, ?_⟩
  rw [← List.append_nil (calls ++ [duoFirst, duoSecond])] at hall
  refine hserves _ calls [duoFirst, duoSecond] [] "sms" hall (by decide) ?_ ?_ (by decide)
  · have hfailed : (newlyFailed duoFirst.before duoFirst.after).isEmpty := by decide +kernel
    have hfailed' : (newlyFailed duoSecond.before duoSecond.after).isEmpty := by decide +kernel
    intro c hc
    rcases List.mem_pair.mp hc with rfl | rfl
    · exact .of_isEmpty hfailed
    · exact .of_isEmpty hfailed'
  · intro c hc _
    rcases List.mem_pair.mp hc with rfl | rfl
    · exact hasReady_of_front ⟨3⟩ [] (by decide +kernel) (by decide +kernel)
    · exact hasReady_of_front ⟨3⟩ [] (by decide +kernel) (by decide +kernel)

end Coordinator

end DurableQueue
