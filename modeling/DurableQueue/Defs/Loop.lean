import DurableQueue.Lib.Trace
import DurableQueue.Defs.Dispatch
import DurableQueue.Defs.DueRetries
import DurableQueue.Defs.Replies
import DurableQueue.Defs.RetryTimes
import DurableQueue.Defs.Timeouts

/-! The loop of `run`: the order of its operations, and the timers it sleeps for. -/

namespace DurableQueue

def Instant.min (a b : Instant) : Instant := if b.nanos < a.nanos then b else a

def Instant.earlier : Option Instant → Option Instant → Option Instant
  | some a, some b => some (a.min b)
  | some a, none => some a
  | none, some b => some b
  | none, none => none

inductive Timer
  | lease (id : JobId) (leaseId : LeaseId)
  | retry (id : JobId) (wallClock : UnixMillis)
  | shutdown

def Timer.Delay (config : RuntimeConfig) : Timer → Duration → Prop
  | .lease .., delay => delay = config.visibilityTimeout
  | .retry .., delay => ∃ attempt rng, delay = config.retry.delayWithRng attempt rng
  | .shutdown, delay => delay = config.shutdownTimeout

namespace Coordinator

variable {X : Crates} {P : Fault → Prop} {config : RuntimeConfig} {clock : Nat → Instant}
  {D : Dealing → Prop} {s₀ s s' s'' : Coordinator}

inductive Armed (s : Coordinator) : Timer → Instant → Prop
  | lease {id : JobId} {l : ActiveLease} (h : s.leases.get id = some l) :
      Armed s (.lease id l.leaseId) l.deadline
  | retry {e : RetryEntry} (h : e ∈ s.retryQueue) :
      Armed s (.retry e.jobId e.wallClockAvailableAt) e.availableAt
  | shutdown {d : Instant} (h : s.shutdownDeadline = some d) : Armed s .shutdown d

theorem Armed.lease_inv {id : JobId} {l : LeaseId} {d : Instant} (h : Armed s (.lease id l) d) :
    ∃ lease, s.leases.get id = some lease ∧ lease.deadline = d := by
  cases h with
  | lease h => exact ⟨_, h, rfl⟩

theorem Armed.retry_inv {id : JobId} {wall : UnixMillis} {d : Instant}
    (h : Armed s (.retry id wall) d) : ∃ e ∈ s.retryQueue, e.availableAt = d := by
  cases h with
  | retry h => exact ⟨_, h, rfl⟩

/-! ## The next deadline -/

/-- `peek` yields an entry with the least time. -/
def nextDeadline (s : Coordinator) : Option Instant :=
  let retryDeadline := (s.retryQueue.argmin (·.availableAt.nanos)).map (·.availableAt)
  let leaseDeadline := (s.leases.values.argmin (·.deadline.nanos)).map (·.deadline)
  let deadline := Instant.earlier retryDeadline leaseDeadline
  match s.shutdownDeadline with
  | some sd => some (deadline.elim sd (·.min sd))
  | none => deadline

def Earliest (A : Instant → Prop) : Option Instant → Prop
  | some d => A d ∧ ∀ d', A d' → d.nanos ≤ d'.nanos
  | none => ∀ d, ¬A d

theorem Earliest.congr {A B : Instant → Prop} {d : Option Instant} (h : Earliest A d)
    (hAB : ∀ d, A d ↔ B d) : Earliest B d := by
  cases d with
  | none => exact fun d hd => h d ((hAB d).mpr hd)
  | some d => exact ⟨(hAB d).mp h.1, fun d' hd' => h.2 d' ((hAB d').mpr hd')⟩

theorem Earliest.earlier {A B : Instant → Prop} {a b : Option Instant} (ha : Earliest A a)
    (hb : Earliest B b) : Earliest (fun d => A d ∨ B d) (Instant.earlier a b) := by
  cases a with
  | none =>
    cases b with
    | none => exact fun d hd => hd.elim (ha d) (hb d)
    | some b => exact ⟨Or.inr hb.1, fun d hd => hd.elim (fun h => absurd h (ha d)) (hb.2 d)⟩
  | some a =>
    cases b with
    | none => exact ⟨Or.inl ha.1, fun d hd => hd.elim (ha.2 d) fun h => absurd h (hb d)⟩
    | some b =>
      simp only [Instant.earlier, Instant.min]
      split
      · rename_i hlt
        exact ⟨Or.inr hb.1, fun d hd => hd.elim (fun h => hlt.le.trans (ha.2 d h)) (hb.2 d)⟩
      · rename_i hle
        exact ⟨Or.inl ha.1, fun d hd =>
          hd.elim (ha.2 d) fun h => (Nat.not_lt.mp hle).trans (hb.2 d h)⟩

theorem Earliest.argmin {α : Type} (l : List α) (f : α → Instant) :
    Earliest (fun d => ∃ a ∈ l, f a = d) ((l.argmin fun a => (f a).nanos).map f) := by
  cases h : l.argmin fun a => (f a).nanos with
  | none =>
    rintro d ⟨a, ha, _⟩
    rw [List.argmin_eq_none.mp h] at ha
    cases ha
  | some a =>
    refine ⟨⟨a, List.argmin_mem h, rfl⟩, ?_⟩
    rintro _ ⟨b, hb, rfl⟩
    exact List.le_of_mem_argmin (f := fun a => (f a).nanos) hb h

theorem nextDeadline_earliest (s : Coordinator) :
    Earliest (fun d => ∃ timer, Armed s timer d) s.nextDeadline := by
  have hretry := Earliest.argmin s.retryQueue (·.availableAt)
  have hlease := Earliest.argmin s.leases.values (·.deadline)
  have hshutdown : Earliest (fun d => s.shutdownDeadline = some d) s.shutdownDeadline := by
    cases s.shutdownDeadline with
    | none => exact fun d h => nomatch h
    | some sd =>
      refine ⟨rfl, fun d h => ?_⟩
      cases h
      exact le_rfl
  have hnext : s.nextDeadline = Instant.earlier (Instant.earlier
      ((s.retryQueue.argmin (·.availableAt.nanos)).map (·.availableAt))
      ((s.leases.values.argmin (·.deadline.nanos)).map (·.deadline))) s.shutdownDeadline := by
    unfold nextDeadline
    cases s.shutdownDeadline <;> dsimp only <;>
      generalize Instant.earlier _ _ = d <;> cases d <;> rfl
  rw [hnext]
  refine ((hretry.earlier hlease).earlier hshutdown).congr fun d => ?_
  constructor
  · rintro ((⟨e, he, rfl⟩ | ⟨l, hl, rfl⟩) | h)
    · exact ⟨_, .retry he⟩
    · obtain ⟨id, hid⟩ := HashMap.mem_values.mp hl
      exact ⟨_, .lease hid⟩
    · exact ⟨_, .shutdown h⟩
  · rintro ⟨_, h⟩
    cases h with
    | lease h => exact Or.inl (Or.inr ⟨_, HashMap.mem_values.mpr ⟨_, h⟩, rfl⟩)
    | retry h => exact Or.inl (Or.inl ⟨_, h, rfl⟩)
    | shutdown h => exact Or.inr h

/-! ## How timers are set -/

def SetBetween (config : RuntimeConfig) (clock : Nat → Instant) (first last : Nat)
    (timer : Timer) (d : Instant) : Prop :=
  ∃ t delay, first ≤ t ∧ t < last ∧ timer.Delay config delay ∧ d = (clock t).add delay

theorem SetBetween.mono {first first' last last' : Nat} {timer : Timer} {d : Instant}
    (h : SetBetween config clock first last timer d) (hfirst : first' ≤ first)
    (hlast : last ≤ last') : SetBetween config clock first' last' timer d := by
  obtain ⟨t, delay, hf, hl, hdelay, rfl⟩ := h
  exact ⟨t, delay, hfirst.trans hf, hl.trans_le hlast, hdelay, rfl⟩

structure Sets (config : RuntimeConfig) (clock : Nat → Instant) (s s' : Coordinator) : Prop where
  tick : s.tick ≤ s'.tick
  armed : ∀ timer d, Armed s' timer d →
    Armed s timer d ∨ SetBetween config clock s.tick s'.tick timer d

namespace Sets

theorem refl (s : Coordinator) : Sets config clock s s := ⟨le_rfl, fun _ _ h => Or.inl h⟩

theorem trans (h : Sets config clock s s') (h' : Sets config clock s' s'') :
    Sets config clock s s'' := by
  refine ⟨h.tick.trans h'.tick, fun timer d hd => ?_⟩
  rcases h'.armed timer d hd with hd | hd
  · exact (h.armed timer d hd).imp_right fun hset => hset.mono le_rfl h'.tick
  · exact Or.inr (hd.mono h.tick le_rfl)

theorem of_armed (htick : s.tick ≤ s'.tick) (h : ∀ timer d, Armed s' timer d → Armed s timer d) :
    Sets config clock s s' := ⟨htick, fun timer d hd => Or.inl (h timer d hd)⟩

end Sets

theorem Armed.of_same {timer : Timer} {d : Instant} (h : Armed s' timer d)
    (hleases : s'.leases = s.leases) (hretries : s'.retryQueue = s.retryQueue)
    (hshutdown : s'.shutdownDeadline = s.shutdownDeadline) : Armed s timer d := by
  cases h with
  | lease h => exact .lease (hleases ▸ h)
  | retry h => exact .retry (hretries ▸ h)
  | shutdown h => exact .shutdown (hshutdown ▸ h)

theorem Act.sets (h : Act config clock D s s') : Sets config clock s s' := by
  cases h with
  | silent h =>
    exact .of_armed h.tick fun _ _ hd => hd.of_same h.leases h.retryQueue h.shutdownDeadline
  | grant _ id queue =>
    refine ⟨Nat.le_succ _, fun timer d hd => ?_⟩
    cases hd with
    | retry h => exact Or.inl (.retry h)
    | shutdown h => exact Or.inl (.shutdown h)
    | @lease id' l h =>
      change (s.leases.insert id _).get id' = some l at h
      rw [HashMap.get_insert] at h
      split at h
      · cases h
        exact Or.inr ⟨s.tick, _, le_rfl, Nat.lt_succ_self _, rfl, rfl⟩
      · exact Or.inl (.lease h)
  | schedule id queue wall attempt rng =>
    refine ⟨Nat.le_succ _, fun timer d hd => ?_⟩
    cases hd with
    | lease h => exact Or.inl (.lease h)
    | shutdown h => exact Or.inl (.shutdown h)
    | retry h =>
      rcases List.mem_cons.mp h with rfl | h
      · exact Or.inr ⟨s.tick, _, le_rfl, Nat.lt_succ_self _, ⟨attempt, rng, rfl⟩, rfl⟩
      · exact Or.inl (.retry h)
  | removeLease _ id | cancelLease _ id =>
    refine .of_armed le_rfl fun timer d hd => ?_
    cases hd with
    | lease h => exact .lease (removeLease_shrinks id s _ _ h)
    | retry h => exact .retry h
    | shutdown h => exact .shutdown h
  | popRetry entry =>
    refine .of_armed le_rfl fun timer d hd => ?_
    cases hd with
    | lease h => exact .lease h
    | retry h => exact .retry (List.mem_of_mem_erase h)
    | shutdown h => exact .shutdown h
  | hand | drain | completeShutdown | exit =>
    exact .of_armed le_rfl fun _ _ hd => hd.of_same rfl rfl rfl

theorem Acts.sets (h : Acts config clock D s s') : Sets config clock s s' := by
  induction h with
  | refl => exact .refl s
  | tail _ hact ih => exact ih.trans hact.sets

theorem Receives.sets {awaits : Option (Sender × Reply.Kind)}
    (h : Receives config clock s awaits s') : Sets config clock s s' := by
  cases h with
  | nothing => exact .refl s
  | answer | park => exact .of_armed le_rfl fun _ _ hd => hd.of_same rfl rfl rfl
  | keep =>
    refine ⟨Nat.le_succ _, fun timer d hd => ?_⟩
    cases hd with
    | lease h => exact Or.inl (.lease h)
    | retry h => exact Or.inl (.retry h)
    | shutdown h =>
      cases h
      exact Or.inr ⟨s.tick, _, le_rfl, Nat.lt_succ_self _, rfl, rfl⟩

theorem exec_sets (hidle : Idle s) {env : Env} {op : Op}
    (hexec : exec X config env op s = .ok () s') : Sets config env.instant s s' := by
  obtain ⟨s₁, hacts, hreceives⟩ := wp_ok (exec_receives hidle op) hexec
  exact hacts.sets.trans hreceives.sets

/-! ## The loop -/

/-- Where the loop of `run` is.  A round remembers at which draws it looked at the due
retries and at the expired leases. -/
inductive Point
  | retries
  | timeouts (t₁ : Nat)
  | dispatch (t₁ t₂ : Nat)
  | exitCheck (t₁ t₂ : Nat)
  | select (t₁ t₂ : Nat)

def Point.next (tick : Nat) : Point → Op → Option Point
  | .retries, .processDueRetries => some (.timeouts tick)
  | .timeouts t₁, .checkLeaseTimeouts => some (.dispatch t₁ tick)
  | .dispatch t₁ t₂, .tryDispatchParkedWorkers => some (.exitCheck t₁ t₂)
  | .exitCheck t₁ t₂, .checkExit => some (.select t₁ t₂)
  | .select _ _, .handle _ => some .retries
  | .select _ _, .hangUp => some .retries
  | _, _ => none

inductive LoopEvent
  | client
  | turn (op : Op)
  | wake

/-- One step of a process whose coordinator runs its loop.  All its operations read one
clock.  The sleep ends once the clock has reached the next deadline; clients are at work at
any point. -/
inductive LoopStep (X : Crates) (P : Fault → Prop) (config : RuntimeConfig)
    (clock : Nat → Instant) : Point × Coordinator → LoopEvent → Point × Coordinator → Prop
  | acquire {p : Point} {s : Coordinator} {queue : String} {sem : Semaphore}
      (hsem : s.semaphores.get queue = some sem) (havail : 0 < sem.available)
      (hopen : sem.closed = false) :
      LoopStep X P config clock (p, s) .client (p, s.acquire queue)
  | abandon {p : Point} {s : Coordinator} {permit : OwnedSemaphorePermit}
      (hpermit : permit ∈ s.inFlight) :
      LoopStep X P config clock (p, s) .client (p, s.returnPermit permit)
  | turn {p p' : Point} {s s' : Coordinator} {op : Op} {env : Env}
      (hclock : env.instant = clock) (hnext : p.next s.tick op = some p')
      (henabled : op.Enabled P env s) (hexec : exec X config env op s = .ok () s') :
      LoopStep X P config clock (p, s) (.turn op) (p', s')
  | wake {t₁ t₂ : Nat} {s : Coordinator} {d : Instant} (hloop : s.exited = false)
      (hdeadline : s.nextDeadline = some d) (hdue : d.nanos ≤ (clock s.tick).nanos) :
      LoopStep X P config clock (.select t₁ t₂, s) .wake (.retries, s)

theorem LoopStep.run {l l' : Point × Coordinator} {ev : LoopEvent}
    (h : LoopStep X P config clock l ev l') : Run X P config l.2 l'.2 := by
  cases h with
  | acquire hsem havail hopen => exact .single (.acquire hsem havail hopen)
  | abandon hpermit => exact .single (.abandon hpermit)
  | turn _ _ henabled hexec => exact .single (.exec henabled hexec)
  | wake => exact .refl

theorem loop_run {l l' : Point × Coordinator} {evs : List LoopEvent}
    (h : Trace (LoopStep X P config clock) l evs l') : Run X P config l.2 l'.2 := by
  induction h with
  | nil => exact .refl
  | snoc _ hstep ih => exact ih.trans hstep.run

/-! ## No timer is missed -/

/-- The timer lies ahead of a round that looked at the due retries at draw `t₁` and at the
expired leases at draw `t₂`.  A retry may have been scheduled after `t₁`. -/
def Ahead (clock : Nat → Instant) (t₁ t₂ : Nat) : Timer → Instant → Prop
  | .lease .., d => (clock t₂).nanos < d.nanos
  | .retry .., d => (clock t₁).nanos < d.nanos ∨ (clock t₂).nanos ≤ d.nanos
  | .shutdown, _ => True

theorem SetBetween.ahead (hclock : Monotone fun t => (clock t).nanos)
    (hvalid : 0 < config.visibilityTimeout.asNanos) {t₁ t₂ first last : Nat} {timer : Timer}
    {d : Instant} (h : SetBetween config clock first last timer d) (ht : t₂ ≤ first) :
    Ahead clock t₁ t₂ timer d := by
  obtain ⟨t, delay, hfirst, _, hdelay, rfl⟩ := h
  have hle : (clock t₂).nanos ≤ (clock t).nanos := hclock (ht.trans hfirst)
  cases timer with
  | lease =>
    rw [show delay = config.visibilityTimeout from hdelay]
    exact Nat.lt_of_le_of_lt hle (Nat.lt_add_of_pos_right hvalid)
  | retry => exact Or.inr (hle.trans (Nat.le_add_right _ _))
  | shutdown => trivial

def Punctual (clock : Nat → Instant) : Point → Coordinator → Prop
  | .retries, _ => True
  | .timeouts t₁, s => t₁ ≤ s.tick ∧ ∀ e ∈ s.retryQueue, (clock t₁).nanos < e.availableAt.nanos
  | .dispatch t₁ t₂, s | .exitCheck t₁ t₂, s =>
    t₁ ≤ t₂ ∧ t₂ ≤ s.tick ∧ ∀ timer d, Armed s timer d → Ahead clock t₁ t₂ timer d
  | .select t₁ t₂, s => t₁ ≤ t₂ ∧ t₂ ≤ s.tick ∧
    (∀ timer d, Armed s timer d → Ahead clock t₁ t₂ timer d) ∧
    ∀ d, s.shutdownDeadline = some d → s.exited = false →
      ∃ t₃, t₂ ≤ t₃ ∧ t₃ ≤ s.tick ∧ (clock t₃).nanos < d.nanos

theorem checkExit_before {env : Env} :
    wp (checkExit env) (fun _ s' => s'.exited = false → (∃ t, s' = { s with tick := t }) ∧
      ∀ d, s.shutdownDeadline = some d → (env.instant s.tick).nanos < d.nanos)
      (fun _ _ => True) s := by
  refine (wp_bind _ _).mpr (wp_get.mpr ?_)
  split
  · intro h
    cases h
  split
  · rename_i hnone
    refine fun _ => ⟨⟨s.tick, rfl⟩, fun d hd => ?_⟩
    rw [hnone] at hd
    cases hd
  rename_i deadline hdeadline
  refine (wp_bind _ _).mpr (wp_draw.mpr ?_)
  split
  · intro h
    cases h
  · rename_i hbefore
    refine fun _ => ⟨⟨s.tick + 1, rfl⟩, fun d hd => ?_⟩
    rw [hdeadline] at hd
    cases hd
    exact Nat.not_le.mp hbefore

section

variable (hclock : Monotone fun t => (clock t).nanos)
  (hvalid : 0 < config.visibilityTimeout.asNanos)

include hclock hvalid

theorem Sets.ahead {t₁ t₂ : Nat} (h : Sets config clock s s') (ht : t₂ ≤ s.tick)
    (hs : ∀ timer d, Armed s timer d → Ahead clock t₁ t₂ timer d) :
    ∀ timer d, Armed s' timer d → Ahead clock t₁ t₂ timer d := by
  intro timer d hd
  rcases h.armed timer d hd with hold | hnew
  · exact hs timer d hold
  · exact hnew.ahead hclock hvalid ht

theorem Punctual.turn {p p' : Point} {op : Op} {env : Env} (henv : env.instant = clock)
    (hs : Placement config s) (hidle : Idle s) (hnext : p.next s.tick op = some p')
    (hexec : exec X config env op s = .ok () s') (h : Punctual clock p s) :
    Punctual clock p' s' := by
  subst henv
  have hsets : Sets config env.instant s s' := exec_sets hidle hexec
  cases p with
  | retries =>
    cases op with
    | processDueRetries =>
      cases hnext
      obtain ⟨due, hdue⟩ := wp_ok (processDueRetries_requeues hs) hexec
      refine ⟨hsets.tick, fun e he => ?_⟩
      rw [hdue.heap] at he
      simpa using (List.mem_filter.mp he).2
    | _ => cases hnext
  | timeouts t₁ =>
    cases op with
    | checkLeaseTimeouts =>
      cases hnext
      obtain ⟨order, hexpires⟩ := wp_ok (checkLeaseTimeouts_expires hs) hexec
      refine ⟨h.1, hsets.tick, fun timer d hd => ?_⟩
      rcases hsets.armed timer d hd with hold | hnew
      · cases timer with
        | shutdown => trivial
        | retry =>
          obtain ⟨e, he, rfl⟩ := hold.retry_inv
          exact Or.inl (h.2 e he)
        | lease id leaseId =>
          -- a lease that is left was not due
          obtain ⟨l, hl, rfl⟩ := hd.lease_inv
          rw [hexpires.leases] at hl
          split at hl
          · cases hl
          · rename_i hid
            exact Nat.not_le.mp fun hdue => hid (mem_expiredIds.mpr ⟨l, hl, hdue⟩)
      · exact hnew.ahead hclock hvalid le_rfl
    | _ => cases hnext
  | dispatch t₁ t₂ =>
    cases op with
    | tryDispatchParkedWorkers =>
      cases hnext
      exact ⟨h.1, h.2.1.trans hsets.tick, hsets.ahead hclock hvalid h.2.1 h.2.2⟩
    | _ => cases hnext
  | exitCheck t₁ t₂ =>
    cases op with
    | checkExit =>
      cases hnext
      refine ⟨h.1, h.2.1.trans hsets.tick, hsets.ahead hclock hvalid h.2.1 h.2.2, ?_⟩
      intro d hd hloop
      obtain ⟨⟨t, rfl⟩, hbefore⟩ := wp_ok checkExit_before hexec hloop
      exact ⟨s.tick, h.2.1, hsets.tick, hbefore d hd⟩
    | _ => cases hnext
  | select t₁ t₂ =>
    cases op with
    | handle | hangUp =>
      cases hnext
      trivial
    | _ => cases hnext

theorem Punctual.step {l l' : Point × Coordinator} {ev : LoopEvent}
    (hs : Placement config l.2) (hidle : Idle l.2) (h : Punctual clock l.1 l.2)
    (hstep : LoopStep X P config clock l ev l') : Punctual clock l'.1 l'.2 := by
  cases hstep with
  | @acquire p s | @abandon p s =>
    cases p with
    | retries => trivial
    | timeouts => exact h
    | dispatch | exitCheck =>
      exact ⟨h.1, h.2.1, fun timer d hd => h.2.2 timer d (hd.of_same rfl rfl rfl)⟩
    | select =>
      exact ⟨h.1, h.2.1, fun timer d hd => h.2.2.1 timer d (hd.of_same rfl rfl rfl), h.2.2.2⟩
  | turn henv hnext henabled hexec => exact h.turn hclock hvalid henv hs hidle hnext hexec
  | wake => trivial

end

theorem loop_sets {l l' : Point × Coordinator} {evs : List LoopEvent} (hidle : Idle l.2)
    (h : Trace (LoopStep X P config clock) l evs l') : Sets config clock l.2 l'.2 := by
  induction h with
  | nil => exact .refl _
  | snoc h hstep ih =>
    refine ih.trans ?_
    cases hstep with
    | acquire | abandon => exact .of_armed le_rfl fun _ _ hd => hd.of_same rfl rfl rfl
    | turn henv _ _ hexec => exact henv ▸ exec_sets (hidle.run (loop_run h)) hexec
    | wake => exact .refl _

theorem visibilityTimeout_pos (h : config.validate = .ok ()) :
    0 < config.visibilityTimeout.asNanos := by
  unfold RuntimeConfig.validate at h
  split at h
  · cases h
  split at h
  · cases h
  split at h
  · cases h
  · rename_i hzero
    simpa [Duration.isZero, Nat.pos_iff_ne_zero] using hzero

/-- Whenever the loop goes to sleep, every timer has been set to a reading of the clock plus
its delay, or was there at the start; none was due when the round looked at it; and the sleep
is until the earliest of them.  So a lease runs out exactly its visibility timeout after it was
granted, and no retry, lease or shutdown deadline is slept through. -/
theorem sleep_is_punctual (hvalid : config.validate = .ok ()) (hstart : Started X config s₀)
    (hclock : Monotone fun t => (clock t).nanos) {evs : List LoopEvent} {t₁ t₂ : Nat}
    (h : Trace (LoopStep X P config clock) (.retries, s₀) evs (.select t₁ t₂, s))
    (hloop : s.exited = false) :
    t₁ ≤ t₂ ∧ t₂ ≤ s.tick ∧
    (∀ timer d, Armed s timer d →
      Armed s₀ timer d ∨ SetBetween config clock s₀.tick s.tick timer d) ∧
    (∀ timer d, Armed s timer d → Ahead clock t₁ t₂ timer d) ∧
    (∀ d, Armed s .shutdown d → ∃ t₃, t₂ ≤ t₃ ∧ t₃ ≤ s.tick ∧ (clock t₃).nanos < d.nanos) ∧
    Earliest (fun d => ∃ timer, Armed s timer d) s.nextDeadline := by
  have hpunctual : Punctual clock (.select t₁ t₂) s := by
    have hinv := h.invariant
      (I := fun l : Point × Coordinator => Run X P config s₀ l.2 ∧ Punctual clock l.1 l.2)
      (fun l ev l' hl hstep => ⟨hl.1.trans hstep.run, hl.2.step hclock
        (visibilityTimeout_pos hvalid) (hstart.run_placement hl.1) (hstart.idle.run hl.1) hstep⟩)
      ⟨.refl, trivial⟩
    exact hinv.2
  obtain ⟨ht, htick, hahead, hshutdown⟩ := hpunctual
  refine ⟨ht, htick, (loop_sets hstart.idle h).armed, hahead, fun d hd => ?_,
    nextDeadline_earliest s⟩
  cases hd with
  | shutdown hd => exact hshutdown d hd hloop

def napStart : Coordinator := startedOr mailStart (retriedStart ⟨1000⟩ ⟨0⟩).1

theorem napStart_started : Started Postcard.crates mailConfig napStart := by
  obtain ⟨file, h⟩ : ∃ file, retriedStart ⟨1000⟩ ⟨0⟩ = (.ok napStart, file) :=
    startWal_of_isOk mailStart (by decide +kernel)
  exact Boots.started (.wal _ _ h (by decide +kernel))

def napAfter (ops : List Op) : Coordinator :=
  ops.foldl (fun s op => finalState (exec Postcard.crates mailConfig (mailEnv ⟨2⟩ .none) op) s)
    napStart

def napAsleep : Coordinator :=
  napAfter [.processDueRetries, .checkLeaseTimeouts, .tryDispatchParkedWorkers, .checkExit]

/-- A process whose only job is to be retried in a second sleeps for that second. -/
theorem sleep_is_punctual_nap :
    napAsleep.nextDeadline = some ⟨10 ^ 9⟩ ∧
      ∃ t₁ t₂, ∀ timer d, Armed napAsleep timer d → Ahead (fun _ => ⟨0⟩) t₁ t₂ timer d := by
  have hturn : ∀ (p p' : Point) (ops : List Op) (op : Op),
      p.next (napAfter ops).tick op = some p' → (napAfter ops).exited = false →
      op.Holds (napAfter ops) → (napAfter ops).store.get ⟨2⟩ = none →
      value? (exec Postcard.crates mailConfig (mailEnv ⟨2⟩ .none) op) (napAfter ops) = some () →
      LoopStep Postcard.crates (fun _ => True) mailConfig (fun _ => ⟨0⟩) (p, napAfter ops)
        (.turn op) (p', napAfter (ops ++ [op])) := by
    intro p p' ops op hnext hloop hholds hfresh hvalue
    have hlast : napAfter (ops ++ [op]) = finalState
        (exec Postcard.crates mailConfig (mailEnv ⟨2⟩ .none) op) (napAfter ops) := by
      rw [napAfter, List.foldl_append]
      rfl
    rw [hlast]
    have henabled : op.Enabled (fun _ => True) (mailEnv ⟨2⟩ .none) (napAfter ops) :=
      ⟨hloop, hholds, fun _ => trivial, fun _ => hfresh⟩
    exact .turn rfl hnext henabled (eq_ok_of_value hvalue)
  let ops : List Op := [.processDueRetries, .checkLeaseTimeouts, .tryDispatchParkedWorkers]
  let t₁ := (napAfter []).tick
  let t₂ := (napAfter [.processDueRetries]).tick
  have h₁ := Trace.nil.snoc (hturn .retries (.timeouts t₁) [] .processDueRetries rfl
    (by decide +kernel) trivial (by decide +kernel) (by decide +kernel))
  have h₂ := h₁.snoc (hturn (.timeouts t₁) (.dispatch t₁ t₂) (ops.take 1) .checkLeaseTimeouts rfl
    (by decide +kernel) trivial (by decide +kernel) (by decide +kernel))
  have h₃ := h₂.snoc (hturn (.dispatch t₁ t₂) (.exitCheck t₁ t₂) (ops.take 2)
    .tryDispatchParkedWorkers rfl (by decide +kernel) trivial (by decide +kernel)
    (by decide +kernel))
  have h₄ := h₃.snoc (hturn (.exitCheck t₁ t₂) (.select t₁ t₂) ops .checkExit rfl
    (by decide +kernel) trivial (by decide +kernel) (by decide +kernel))
  rw [show ops ++ [.checkExit] = [.processDueRetries, .checkLeaseTimeouts,
    .tryDispatchParkedWorkers, .checkExit] from rfl, ← napAsleep] at h₄
  have hstart : Started Postcard.crates mailConfig (napAfter []) := by
    rw [napAfter, List.foldl_nil]
    exact napStart_started
  have hsleep := sleep_is_punctual (by decide +kernel) hstart (fun _ _ _ => le_rfl) h₄
    (by decide +kernel)
  exact ⟨by decide +kernel, t₁, t₂, hsleep.2.2.2.1⟩

end Coordinator

end DurableQueue
