import DurableQueue.Defs.Shutdown
import DurableQueue.Defs.Worker

/-! What a shutdown does to the handlers that are at work. -/

namespace DurableQueue

variable {X : Crates} {P : Fault → Prop} {config : RuntimeConfig} {late : Bool} {env : Env}

namespace Coordinator

variable {s s' : Coordinator}

theorem mem_handed {reply : Sender} {job : LeasedJob} :
    (reply, job) ∈ s.handed ↔ (reply, .work (some job)) ∈ s.sent := by
  rw [handed, List.mem_filterMap]
  constructor
  · rintro ⟨⟨reply', msg⟩, hmem, heq⟩
    split at heq <;> cases heq
    rename_i h
    cases h
    exact hmem
  · intro hmem
    exact ⟨_, hmem, rfl⟩

theorem exec_down {op : Op} (hdown : s.shuttingDown = true)
    (h : exec X config env op s = .ok () s') :
    s'.shuttingDown = true ∧ s'.handed = s.handed := by
  rcases steers_cases op with hop | rfl | ⟨reply, rfl⟩
  · have hc := exec_control hop hdown h
    exact ⟨(congrArg Control.shuttingDown hc).trans hdown, congrArg Control.handed hc⟩
  · rcases exec_checkExit h with hc | ⟨_, hc⟩ <;>
      exact ⟨(congrArg Control.shuttingDown hc).trans hdown, congrArg Control.handed hc⟩
  · obtain rfl := exec_shutdown_again hdown h
    exact ⟨hdown, by simp [handed, send]⟩

theorem exec_shutdown_token {reply : Sender} (hup : s.shuttingDown = false)
    (h : exec X config env (.handle (.shutdown reply)) s = .ok () s') :
    s'.shuttingDown = true ∧ s'.shutdownToken = true ∧ s'.handed = s.handed := by
  have hc := exec_shutdown_first hup h
  split at hc <;> simp only [control, Control.mk.injEq] at hc <;>
    exact ⟨hc.1, hc.2.2.2.1, hc.2.2.2.2.2.1⟩

end Coordinator

open Coordinator

namespace Pool

variable {p p' : Pool} {k : Nat} {w : Worker}

theorem getElem?_moveTo {j : Nat} {w' : Worker} (h : (p.moveTo k w).workers[j]? = some w') :
    j = k ∧ w' = w ∨ p.workers[j]? = some w' := by
  rw [moveTo, List.getElem?_set] at h
  split at h
  · rename_i heq
    split at h
    · cases h
      exact .inl ⟨heq.symm, rfl⟩
    · cases h
  · exact .inr h

end Pool

theorem PoolStep.coordinator_run {p p' : Pool} (h : PoolStep X P config late p p') :
    Run X P config p.coordinator p'.coordinator := by
  cases h with
  | acquire hsem havail hopen => exact .single (.acquire hsem havail hopen)
  | abandon hpermit => exact .single (.abandon hpermit)
  | coordinator _ henabled hexec => exact .single (.exec henabled hexec)
  | client | check | ask | askFails | fetched | refused | givesUp | finish | join | abort
  | report | reportFails => exact .refl

theorem Pool.Run.coordinator_run {p p' : Pool} (h : Pool.Run X P config late p p') :
    Coordinator.Run X P config p.coordinator p'.coordinator := by
  induction h with
  | refl => exact .refl
  | tail _ hstep ih => exact ih.trans hstep.coordinator_run

/-! ## Reports -/

def Explained (events : List WorkerEvent) (k : Nat) (l : LeaseId) (outcome : WorkerOutcome) :
    Prop :=
  (∃ result, .finished k l result ∈ events ∧ outcome = result.outcome) ∨ .aborted k l ∈ events

def Worker.Backed (events : List WorkerEvent) (k : Nat) : Worker → Prop
  | .running job (some result) => .finished k job.leaseId result ∈ events
  | .reporting job outcome => Explained events k job.leaseId outcome
  | _ => True

theorem Explained.mono {events events' : List WorkerEvent} (hsub : events ⊆ events') {k : Nat}
    {l : LeaseId} {outcome : WorkerOutcome} (h : Explained events k l outcome) :
    Explained events' k l outcome := by
  rcases h with ⟨result, hmem, heq⟩ | hmem
  · exact .inl ⟨result, hsub hmem, heq⟩
  · exact .inr (hsub hmem)

theorem Worker.Backed.mono {events events' : List WorkerEvent} (hsub : events ⊆ events') {k : Nat}
    {w : Worker} (h : w.Backed events k) : w.Backed events' k := by
  match w with
  | .running job (some result) => exact hsub h
  | .reporting job outcome => exact Explained.mono hsub h
  | .running job none | .top | .asking | .waiting reply | .stopped => trivial

namespace Pool

structure Accounts (p : Pool) : Prop where
  workers : ∀ (k : Nat) (w : Worker), p.workers[k]? = some w → w.Backed p.events k
  reports : ∀ k l outcome, .reported k l outcome ∈ p.events → Explained p.events k l outcome
  commands : ∀ id l outcome, .workerOutcome id l outcome ∈ p.channel →
    ∃ k, .reported k l outcome ∈ p.events

namespace Accounts

variable {p : Pool} {k : Nat} {w : Worker} {e : WorkerEvent} {cmd : Command}

theorem moveTo (h : Accounts p) (hw : w.Backed p.events k) : Accounts (p.moveTo k w) where
  workers j w' hget := by
    rcases getElem?_moveTo hget with ⟨rfl, rfl⟩ | hget
    · exact hw
    · exact h.workers j w' hget
  reports := h.reports
  commands := h.commands

theorem note (h : Accounts p)
    (he : ∀ k l outcome, e = .reported k l outcome → Explained p.events k l outcome) :
    Accounts (p.note e) where
  workers k w hget := (h.workers k w hget).mono (List.subset_append_left _ _)
  reports k l outcome hmem := by
    apply Explained.mono (List.subset_append_left p.events [e])
    rcases List.mem_append.mp hmem with hmem | hmem
    · exact h.reports k l outcome hmem
    · exact he k l outcome (List.mem_singleton.mp hmem).symm
  commands id l outcome hmem := by
    obtain ⟨k, hk⟩ := h.commands id l outcome hmem
    exact ⟨k, List.mem_append_left _ hk⟩

theorem push (h : Accounts p) (hcmd : ∀ id l outcome, cmd = .workerOutcome id l outcome →
    ∃ k, .reported k l outcome ∈ p.events) : Accounts (p.push cmd) where
  workers := h.workers
  reports := h.reports
  commands id l outcome hmem := by
    rcases List.mem_append.mp hmem with hmem | hmem
    · exact h.commands id l outcome hmem
    · exact hcmd id l outcome (List.mem_singleton.mp hmem).symm

theorem served (h : Accounts p) (s : Coordinator) (op : Op) :
    Accounts { p with coordinator := s, channel := p.rest op } where
  workers := h.workers
  reports := h.reports
  commands id l outcome hmem := by
    refine h.commands id l outcome ?_
    cases op with
    | handle cmd => exact List.mem_of_mem_tail hmem
    | processDueRetries | checkLeaseTimeouts | tryDispatchParkedWorkers | checkExit | hangUp =>
      exact hmem

theorem step {p' : Pool} (h : Accounts p) (hstep : PoolStep X P config late p p') :
    Accounts p' := by
  cases hstep with
  | acquire | abandon => exact ⟨h.workers, h.reports, h.commands⟩
  | client hcmd =>
    refine h.push fun id l outcome heq => ?_
    subst heq
    cases hcmd
  | coordinator => exact h.served _ _
  | check => exact h.moveTo (by split <;> trivial)
  | @ask k reply =>
    have hpush : Accounts (p.push (.fetchWork reply)) := h.push fun _ _ _ heq => nomatch heq
    exact hpush.moveTo trivial
  | askFails | fetched | refused | givesUp | reportFails => exact h.moveTo trivial
  | @finish k job result =>
    have hnote := h.note (e := .finished k job.leaseId result) fun _ _ _ heq => nomatch heq
    exact hnote.moveTo (List.mem_append_right _ (List.mem_singleton.mpr rfl))
  | @join k job result outcome hw hselect =>
    cases hselect
    exact h.moveTo (.inl ⟨result, h.workers k _ hw, rfl⟩)
  | @abort k job =>
    have hnote := h.note (e := .aborted k job.leaseId) fun _ _ _ heq => nomatch heq
    exact hnote.moveTo (.inr (List.mem_append_right _ (List.mem_singleton.mpr rfl)))
  | @report k job outcome hw =>
    have hnote := h.note (e := .reported k job.leaseId outcome) fun _ _ _ heq => by
      cases heq
      exact h.workers k _ hw
    have hpush : Accounts ((p.note (.reported k job.leaseId outcome)).push
        (.workerOutcome job.context.id job.leaseId outcome)) := hnote.push fun _ _ _ heq => by
      cases heq
      exact ⟨k, List.mem_append_right _ (List.mem_singleton.mpr rfl)⟩
    exact hpush.moveTo trivial

theorem run {p' : Pool} (h : Accounts p) (hrun : Pool.Run X P config late p p') : Accounts p' := by
  induction hrun with
  | refl => exact h
  | tail _ hstep ih => exact ih.step hstep

end Accounts

theorem accounts_start (config : RuntimeConfig) (s : Coordinator) : Accounts (start config s) where
  workers k w hget := by
    have hw := List.eq_of_mem_replicate (List.mem_of_getElem? hget)
    rw [hw]
    trivial
  reports _ _ _ hmem := nomatch hmem
  commands _ _ _ hmem := nomatch hmem

/-! ## Aborts -/

def AbortsLate (p : Pool) : Prop :=
  ∀ k l, .aborted k l ∈ p.events → p.coordinator.shuttingDown = true

theorem AbortsLate.step {p p' : Pool} (h : AbortsLate p) (hidle : p.coordinator.Idle)
    (hstep : PoolStep X P config late p p') : AbortsLate p' := by
  intro k l hmem
  cases hstep with
  | acquire | abandon | client | check | ask | askFails | fetched | refused | givesUp | join
  | reportFails => exact h k l hmem
  | coordinator _ _ hexec => exact (exec_down (h k l hmem) hexec).1
  | finish | report =>
    rcases List.mem_append.mp hmem with hmem | hmem
    · exact h k l hmem
    · cases List.mem_singleton.mp hmem
  | abort hw hselect =>
    change p.coordinator.shuttingDown = true
    cases hup : p.coordinator.shuttingDown with
    | true => rfl
    | false =>
      rw [(hidle hup).2.2] at hselect
      cases hselect

theorem AbortsLate.run {p p' : Pool} (h : AbortsLate p) (hidle : p.coordinator.Idle)
    (hrun : Pool.Run X P config late p p') : AbortsLate p' := by
  induction hrun with
  | refl => exact h
  | tail hrun hstep ih => exact ih.step (hidle.run (Pool.Run.coordinator_run hrun)) hstep

end Pool

def Worker.Unfinished (s : Coordinator) : Worker → Prop
  | .running _ none => True
  | .waiting reply => ∃ job, (reply, .work (some job)) ∈ s.sent
  | _ => False

namespace Pool

def Resting (p : Pool) : Prop := ∀ w ∈ p.workers, ¬ w.Unfinished p.coordinator

theorem Resting.moveTo {p : Pool} {k : Nat} {w : Worker} (h : Resting p)
    (hw : ¬ w.Unfinished p.coordinator) : Resting (p.moveTo k w) := by
  intro w' hmem
  rcases List.mem_or_eq_of_mem_set hmem with hmem | rfl
  · exact h w' hmem
  · exact hw

theorem unfinished_congr {s s' : Coordinator} (h : s'.handed = s.handed) (w : Worker) :
    w.Unfinished s' ↔ w.Unfinished s := by
  cases w with
  | waiting reply => simp only [Worker.Unfinished, ← mem_handed, h]
  | running job task => cases task <;> exact Iff.rfl
  | top | asking | reporting | stopped => exact Iff.rfl

theorem Resting.step {p p' : Pool} (h : Resting p) (hdown : p.coordinator.shuttingDown = true)
    (hstep : PoolStep X P config late p p') :
    Resting p' ∧ p'.coordinator.shuttingDown = true ∧
      ∀ k l, .aborted k l ∈ p'.events → .aborted k l ∈ p.events := by
  cases hstep with
  | acquire | abandon | client => exact ⟨h, hdown, fun _ _ hmem => hmem⟩
  | coordinator _ _ hexec =>
    obtain ⟨hdown', hhanded⟩ := exec_down hdown hexec
    refine ⟨fun w hw => ?_, hdown', fun _ _ hmem => hmem⟩
    exact fun hunfinished => h w hw ((unfinished_congr hhanded w).mp hunfinished)
  | check => exact ⟨h.moveTo (by split <;> exact id), hdown, fun _ _ hmem => hmem⟩
  | @ask k reply _ _ hnew =>
    refine ⟨Resting.moveTo (p := p.push (.fetchWork reply)) h ?_, hdown, fun _ _ hmem => hmem⟩
    rintro ⟨job, hmem⟩
    apply hnew
    have hreply : reply ∈ p.coordinator.sent.map Prod.fst := List.mem_map.mpr ⟨_, hmem, rfl⟩
    simp only [replies, List.mem_append]
    exact .inl (.inl (.inl (.inl hreply)))
  | askFails | refused | givesUp | join | reportFails =>
    exact ⟨h.moveTo id, hdown, fun _ _ hmem => hmem⟩
  | fetched hw hreply => exact absurd ⟨_, hreply⟩ (h _ (List.mem_of_getElem? hw))
  | finish hw | abort hw => exact absurd trivial (h _ (List.mem_of_getElem? hw))
  | report =>
    refine ⟨Resting.moveTo (p := (p.push _).note _) h id, hdown, fun _ _ hmem => ?_⟩
    rcases List.mem_append.mp hmem with hmem | hmem
    · exact hmem
    · cases List.mem_singleton.mp hmem

theorem Resting.run {p p' : Pool} (h : Resting p) (hdown : p.coordinator.shuttingDown = true)
    (hrun : Pool.Run X P config late p p') :
    Resting p' ∧ p'.coordinator.shuttingDown = true ∧
      ∀ k l, .aborted k l ∈ p'.events → .aborted k l ∈ p.events := by
  induction hrun with
  | refl => exact ⟨h, hdown, fun _ _ hmem => hmem⟩
  | tail _ hstep ih =>
    obtain ⟨hrest, hdown', hsub⟩ := ih
    obtain ⟨hrest', hdown'', hsub'⟩ := hrest.step hdown' hstep
    exact ⟨hrest', hdown'', fun k l hmem => hsub k l (hsub' k l hmem)⟩

/-! ## Shutdown -/

/-- If the record schedules a retry of a job or gives it up, then its lease ran out, or its
handler has failed. -/
def Earned (p : Pool) (op : Op) (r : WalRecord) : Prop :=
  r.isRetryScheduled ∨ r.isDead → op = .checkLeaseTimeouts ∨ ∃ k l result,
    r.outcomeLease = some l ∧ .finished k l result ∈ p.events ∧ result.outcome ≠ .success

/-- What a graceful shutdown promises of a state before its deadline: no handler has been
aborted, every outcome that was sent is the own result of its handler, and no record that is
tried to be logged ends an attempt that has not failed. -/
structure Graceful (X : Crates) (P : Fault → Prop) (config : RuntimeConfig) (p : Pool) : Prop where
  unaborted : ∀ k l, .aborted k l ∉ p.events
  own : ∀ k l outcome, .reported k l outcome ∈ p.events →
    ∃ result, .finished k l result ∈ p.events ∧ outcome = result.outcome
  earned : ∀ op env, p.Turn false env op → op.Enabled P env p.coordinator →
    (∀ s, exec X config env op p.coordinator = .ok () s → OnlyLogs (p.Earned op) p.coordinator s) ∧
    ∀ c s, exec X config env op p.coordinator = .error c s →
      OnlyLogs (p.Earned op) p.coordinator s ∧ ∀ r file, c = .append r file → p.Earned op r

variable {p : Pool}

theorem Accounts.own (h : Accounts p) (hnone : ∀ k l, .aborted k l ∉ p.events) {k : Nat}
    {l : LeaseId} {outcome : WorkerOutcome} (hmem : .reported k l outcome ∈ p.events) :
    ∃ result, .finished k l result ∈ p.events ∧ outcome = result.outcome :=
  (h.reports k l outcome hmem).resolve_right (hnone k l)

theorem Accounts.earned (h : Accounts p) (hnone : ∀ k l, .aborted k l ∉ p.events) {op : Op}
    (hturn : p.Turn late env op) {s : Coordinator} {r : WalRecord}
    (hr : op.Persists p.coordinator s r) : p.Earned op r := by
  have hsent : ∀ {id l outcome}, p.Turn late env (.handle (.workerOutcome id l outcome)) →
      outcome ≠ .success → ∃ k result, .finished k l result ∈ p.events ∧
        result.outcome ≠ .success := by
    intro id l outcome hhead hne
    obtain ⟨k, hk⟩ := h.commands id l outcome (List.mem_of_mem_head? hhead)
    obtain ⟨result, hfinished, rfl⟩ := h.own hnone hk
    exact ⟨k, result, hfinished, hne⟩
  intro hends
  cases hr with
  | timeoutRetry | timeoutDead => exact .inl rfl
  | dispatch | submit | submitLease | fetch | cancel | complete => simp [WalRecord.isRetryScheduled,
      WalRecord.isDead] at hends
  | fatal =>
    obtain ⟨k, result, hfinished, hne⟩ := hsent hturn (by simp)
    exact .inr ⟨k, _, result, rfl, hfinished, hne⟩
  | retry ho | exhausted ho =>
    obtain ⟨k, result, hfinished, hne⟩ := hsent hturn (by rcases ho with rfl | rfl <;> simp)
    exact .inr ⟨k, _, result, rfl, hfinished, hne⟩

theorem Accounts.graceful (h : Accounts p) (hnone : ∀ k l, .aborted k l ∉ p.events)
    (hs : Placement config p.coordinator) : Graceful X P config p where
  unaborted := hnone
  own _ _ _ hmem := h.own hnone hmem
  earned op env hturn henabled := by
    refine ⟨fun s hexec => ?_, fun c s hexec => ?_⟩
    · have hsteps := (wp_ok (exec_logs (X := X) hs henabled) hexec).1
      exact StepsOf.onlyLogs hsteps fun _ _ hr => h.earned hnone hturn hr
    · exact exec_cut hs henabled (fun _ _ hr => h.earned hnone hturn hr) hexec

theorem aborts_running {k : Nat} {job : LeasedJob} (htoken : p.coordinator.shutdownToken = true)
    (hw : p.workers[k]? = some (.running job none)) :
    ∃ q, PoolStep X P config late p q ∧ .aborted k job.leaseId ∈ q.events := by
  have hselect : executeWithCancellation none p.coordinator.shutdownToken = some .retryable := by
    rw [htoken]
    rfl
  exact ⟨_, .abort hw hselect, List.mem_append_right _ (List.mem_singleton.mpr rfl)⟩

theorem aborts_unfinished (htoken : p.coordinator.shutdownToken = true) (h : ¬ Resting p) :
    ∃ q k l, Pool.Run X P config late p q ∧ .aborted k l ∈ q.events := by
  obtain ⟨w, hmem, hunfinished⟩ : ∃ w ∈ p.workers, w.Unfinished p.coordinator := by
    by_contra hall
    exact h fun w hw hunfinished => hall ⟨w, hw, hunfinished⟩
  obtain ⟨k, hw⟩ := List.getElem?_of_mem hmem
  match w with
  | .running job none =>
    obtain ⟨q, hstep, haborted⟩ := aborts_running htoken hw
    exact ⟨q, k, job.leaseId, .single hstep, haborted⟩
  | .waiting reply =>
    obtain ⟨job, hreply⟩ := hunfinished
    have hw' : (p.moveTo k (.running job none)).workers[k]? = some (.running job none) := by
      rw [moveTo, List.getElem?_set_self]
      exact (List.getElem?_eq_some_iff.mp hw).1
    obtain ⟨q, hstep, haborted⟩ :=
      aborts_running (p := p.moveTo k (.running job none)) htoken hw'
    exact ⟨q, k, job.leaseId, .tail (.single (.fetched hw hreply)) hstep, haborted⟩

/-- Let the first shutdown command be handled in a state `u` of a run.  What a graceful
shutdown promises holds in every later state before the deadline if and only if no handler is
at work in `u`, nor any worker has been sent a job that it has not taken up: the shutdown
token, which every worker waits for beside its handler, cuts the handler off. -/
theorem shutdown_graceful_iff {s₀ s : Coordinator} {u : Pool} {reply : Sender}
    (hstart : Started X config s₀) (hreach : Pool.Run X P config true (start config s₀) u)
    (hup : u.coordinator.shuttingDown = false)
    (hturn : u.channel.head? = some (.shutdown reply))
    (henabled : (Op.handle (.shutdown reply)).Enabled P env u.coordinator)
    (hexec : exec X config env (.handle (.shutdown reply)) u.coordinator = .ok () s) :
    (∀ q, Pool.Run X P config false { u with coordinator := s, channel := u.channel.tail } q →
      q.Graceful X P config) ↔ u.Resting := by
  have hidle := hstart.idle.run (Pool.Run.coordinator_run hreach)
  have hnone : ∀ k l, .aborted k l ∉ u.events := by
    intro k l hmem
    have hlate : AbortsLate u :=
      AbortsLate.run (fun _ _ hmem => absurd hmem List.not_mem_nil) hstart.idle hreach
    rw [hlate k l hmem] at hup
    cases hup
  obtain ⟨hdown, htoken, hhanded⟩ := exec_shutdown_token hup hexec
  have hstep : PoolStep X P config true u { u with coordinator := s, channel := u.channel.tail } := by
    have hturn' : u.Turn true env (.handle (.shutdown reply)) := hturn
    exact .coordinator hturn' henabled hexec
  have hresting : Resting { u with coordinator := s, channel := u.channel.tail } ↔ Resting u := by
    simp only [Resting, unfinished_congr hhanded]
  constructor
  · intro hgraceful
    by_contra hunfinished
    rw [← hresting] at hunfinished
    obtain ⟨q, k, l, hrun, haborted⟩ := aborts_unfinished htoken hunfinished
    exact (hgraceful q hrun).unaborted k l haborted
  · intro hrest q hrun
    obtain ⟨_, _, hsub⟩ := (hresting.mpr hrest).run hdown hrun
    have haccounts := ((accounts_start config s₀).run (hreach.tail hstep)).run hrun
    refine haccounts.graceful (fun k l hmem => hnone k l (hsub k l hmem)) ?_
    have hcoordinator := (Pool.Run.coordinator_run (hreach.tail hstep)).trans
      (Pool.Run.coordinator_run hrun)
    exact hstart.run_placement hcoordinator

/-! ## A shutdown with a job at work -/

def mailJob : LeasedJob := ⟨⟨⟨1⟩, ⟨"mail"⟩, [1, 2], 1, 3, ⟨1⟩⟩, ⟨1⟩⟩

def mailWorking : Pool := ⟨mailLeased, [], [.running mailJob none], []⟩

abbrev MailStep (late : Bool) : Pool → Pool → Prop :=
  PoolStep Postcard.crates (· = .none) mailConfig late

theorem mailWorking_run :
    Relation.ReflTransGen (MailStep true) (start mailConfig mailStart) mailWorking := by
  have hsubmit : Relation.ReflTransGen (MailStep true) (start mailConfig mailStart)
      ⟨mailSubmitted, [], [.top], []⟩ := by
    have hsem : mailStart.semaphores.get "mail" = some (Semaphore.new 1) := rfl
    have hacquire : MailStep true (start mailConfig mailStart) ⟨mailAcquired, [], [.top], []⟩ :=
      .acquire hsem (by decide) rfl
    have hsend : MailStep true ⟨mailAcquired, [], [.top], []⟩
        ⟨mailAcquired, [.submit ⟨"mail"⟩ ⟨[1, 2], 3⟩ ⟨"mail"⟩ 0], [.top], []⟩ :=
      .client rfl ⟨rfl, by decide⟩
    have henabled : (Op.handle (.submit ⟨"mail"⟩ ⟨[1, 2], 3⟩ ⟨"mail"⟩ 0)).Enabled (· = .none)
        (mailEnv ⟨1⟩ .none) mailAcquired := ⟨rfl, ⟨by decide, rfl⟩, fun _ => rfl, fun _ => rfl⟩
    have hturn : Turn true (mailEnv ⟨1⟩ .none)
        ⟨mailAcquired, [.submit ⟨"mail"⟩ ⟨[1, 2], 3⟩ ⟨"mail"⟩ 0], [.top], []⟩
        (.handle (.submit ⟨"mail"⟩ ⟨[1, 2], 3⟩ ⟨"mail"⟩ 0)) := rfl
    exact ((Relation.ReflTransGen.single hacquire).tail hsend).tail
      (.coordinator hturn henabled rfl)
  have hcheck : MailStep true ⟨mailSubmitted, [], [.top], []⟩
      ⟨mailSubmitted, [], [.asking], []⟩ :=
    @PoolStep.check _ _ _ _ ⟨mailSubmitted, [], [.top], []⟩ 0 rfl
  have hask : MailStep true ⟨mailSubmitted, [], [.asking], []⟩
      ⟨mailSubmitted, [.fetchWork 1], [.waiting 1], []⟩ := by
    have hsend : Accepts mailConfig ⟨mailSubmitted, [], [.asking], []⟩ := ⟨rfl, by decide⟩
    have hnew : 1 ∉ replies ⟨mailSubmitted, [], [.asking], []⟩ := by decide +kernel
    exact @PoolStep.ask _ _ _ _ ⟨mailSubmitted, [], [.asking], []⟩ 0 1 rfl hsend hnew
  have hserve : MailStep true ⟨mailSubmitted, [.fetchWork 1], [.waiting 1], []⟩
      ⟨mailLeased, [], [.waiting 1], []⟩ := by
    have henabled : (Op.handle (.fetchWork 1)).Enabled (· = .none) (mailEnv ⟨2⟩ .none)
        mailSubmitted := ⟨rfl, trivial, fun _ => rfl, fun _ => rfl⟩
    have hturn : Turn true (mailEnv ⟨2⟩ .none)
        ⟨mailSubmitted, [.fetchWork 1], [.waiting 1], []⟩ (.handle (.fetchWork 1)) := rfl
    exact .coordinator hturn henabled rfl
  have hfetched : MailStep true ⟨mailLeased, [], [.waiting 1], []⟩ mailWorking := by
    have hreply : (1, .work (some mailJob)) ∈ mailLeased.sent :=
      List.mem_of_getElem? (show mailLeased.sent[1]? = some _ from rfl)
    exact @PoolStep.fetched _ _ _ _ ⟨mailLeased, [], [.waiting 1], []⟩ 0 1 mailJob rfl hreply
  exact (((hsubmit.tail hcheck).tail hask).tail hserve).tail hfetched

def mailReturned : Pool :=
  ⟨mailLeased, [.shutdown 7], [.running mailJob (some (.ok (.ok ())))],
    [.finished 0 ⟨1⟩ (.ok (.ok ()))]⟩

theorem mailStopping_enabled :
    (Op.handle (.shutdown 7)).Enabled (· = .none) (mailEnv ⟨2⟩ .none) mailLeased :=
  ⟨rfl, trivial, fun _ => rfl, fun _ => rfl⟩

theorem shutdown_graceful_returned : mailReturned.Resting ∧
    ∀ q, Pool.Run Postcard.crates (· = .none) mailConfig false
        { mailReturned with coordinator := mailStopping, channel := mailReturned.channel.tail } q →
      q.Graceful Postcard.crates (· = .none) mailConfig := by
  have hfinish : MailStep true mailWorking { mailReturned with channel := [] } :=
    @PoolStep.finish _ _ _ _ mailWorking 0 mailJob (.ok (.ok ())) rfl (by simp)
  have hsend : MailStep true { mailReturned with channel := [] } mailReturned :=
    @PoolStep.client _ _ _ _ { mailReturned with channel := [] } (.shutdown 7) rfl
      ⟨rfl, by decide⟩
  have hresting : mailReturned.Resting := by
    intro w hw
    cases List.mem_singleton.mp hw
    exact id
  exact ⟨hresting, (shutdown_graceful_iff (.fresh mailBoot _ _)
    ((mailWorking_run.tail hfinish).tail hsend) rfl rfl mailStopping_enabled rfl).mpr hresting⟩

def mailCutOff : Coordinator :=
  after Postcard.crates mailConfig (mailEnv ⟨2⟩ .none)
    (.handle (.workerOutcome ⟨1⟩ ⟨1⟩ .retryable)) mailStopping

/-- The handler of `mailWorking` is still at work when the shutdown command is handled.  The
deadline is half a minute away, but its worker aborts it and reports a failure that is none,
and a retry is logged. -/
theorem shutdown_aborts_working : ∃ u v q : Pool,
    Relation.ReflTransGen (MailStep true) (start mailConfig mailStart) u ∧
    u.coordinator.shuttingDown = false ∧ u.coordinator.leases.keys = [⟨1⟩] ∧
    MailStep false u v ∧ v.coordinator.shuttingDown = true ∧
    Relation.ReflTransGen (MailStep false) v q ∧
    q.events = [.aborted 0 ⟨1⟩, .reported 0 ⟨1⟩ .retryable] ∧
    q.coordinator.exited = false ∧
    q.coordinator.acked.getLast? = some (.jobRetryScheduled ⟨1⟩ ⟨1⟩ 1 ⟨100⟩) := by
  have hsend : MailStep true mailWorking { mailWorking with channel := [.shutdown 7] } :=
    @PoolStep.client _ _ _ _ mailWorking (.shutdown 7) rfl ⟨rfl, by decide⟩
  have hshutdown : MailStep false { mailWorking with channel := [.shutdown 7] }
      { mailWorking with coordinator := mailStopping } := by
    have hturn : Turn false (mailEnv ⟨2⟩ .none) { mailWorking with channel := [.shutdown 7] }
        (.handle (.shutdown 7)) := rfl
    exact .coordinator hturn mailStopping_enabled rfl
  have habort : MailStep false { mailWorking with coordinator := mailStopping }
      ⟨mailStopping, [], [.reporting mailJob .retryable], [.aborted 0 ⟨1⟩]⟩ :=
    @PoolStep.abort _ _ _ _ { mailWorking with coordinator := mailStopping } 0 mailJob .retryable
      rfl rfl
  have hreport : MailStep false
      ⟨mailStopping, [], [.reporting mailJob .retryable], [.aborted 0 ⟨1⟩]⟩
      ⟨mailStopping, [.workerOutcome ⟨1⟩ ⟨1⟩ .retryable], [.top],
        [.aborted 0 ⟨1⟩, .reported 0 ⟨1⟩ .retryable]⟩ :=
    @PoolStep.report _ _ _ _
      ⟨mailStopping, [], [.reporting mailJob .retryable], [.aborted 0 ⟨1⟩]⟩ 0 mailJob .retryable
      rfl ⟨rfl, by decide⟩
  have hcut : MailStep false
      ⟨mailStopping, [.workerOutcome ⟨1⟩ ⟨1⟩ .retryable], [.top],
        [.aborted 0 ⟨1⟩, .reported 0 ⟨1⟩ .retryable]⟩
      ⟨mailCutOff, [], [.top], [.aborted 0 ⟨1⟩, .reported 0 ⟨1⟩ .retryable]⟩ := by
    have henabled : (Op.handle (.workerOutcome ⟨1⟩ ⟨1⟩ .retryable)).Enabled (· = .none)
        (mailEnv ⟨2⟩ .none) mailStopping := ⟨rfl, trivial, fun _ => rfl, fun _ => rfl⟩
    have hturn : Turn false (mailEnv ⟨2⟩ .none)
        ⟨mailStopping, [.workerOutcome ⟨1⟩ ⟨1⟩ .retryable], [.top],
          [.aborted 0 ⟨1⟩, .reported 0 ⟨1⟩ .retryable]⟩
        (.handle (.workerOutcome ⟨1⟩ ⟨1⟩ .retryable)) := rfl
    exact .coordinator hturn henabled rfl
  refine ⟨_, _, _, mailWorking_run.tail hsend, rfl, by decide +kernel, hshutdown, rfl,
    ((Relation.ReflTransGen.single habort).tail hreport).tail hcut, rfl, rfl, ?_⟩
  decide +kernel

end Pool

end DurableQueue
