import DurableQueue.Lib.Slots
import DurableQueue.Defs.Graceful
import DurableQueue.Defs.Handing

/-! Who has a lease: a worker, from the moment its job is sent until its outcome is back. -/

namespace DurableQueue

open Coordinator

variable {X : Crates} {P : Fault → Prop} {config : RuntimeConfig} {late : Bool}

def Worker.job? (handed : List (Sender × LeasedJob)) : Worker → Option LeasedJob
  | .waiting reply => handed.lookup reply
  | .running job _ | .reporting job _ => some job
  | .top | .asking | .stopped => none

def LeasedJob.lease (job : LeasedJob) : JobId × LeaseId := (job.context.id, job.leaseId)

def Worker.lease? (handed : List (Sender × LeasedJob)) (w : Worker) : Option (JobId × LeaseId) :=
  (w.job? handed).map LeasedJob.lease

/-- The leases on the workers' side: those of the jobs that workers have or have been sent, and
those of the outcomes in the command channel. -/
def Pool.held (p : Pool) : List (JobId × LeaseId) :=
  p.workers.filterMap (Worker.lease? p.coordinator.handed) ++ p.channel.filterMap Command.outcome?

/-! ## The two sides of a lease -/

/-- Every lease of the coordinator is held, and held once; what is held without being in force
has a cancelled token. -/
structure Custody (s : Coordinator) (held : List (JobId × LeaseId)) : Prop where
  nodup : (held.map Prod.snd).Nodup
  used : ∀ x ∈ held, x.2.epoch.toNat < s.nextLeaseEpoch.toNat
  active : ∀ id lease, s.leases.get id = some lease → (id, lease.leaseId) ∈ held
  cancelled : ∀ x ∈ held, (∃ lease, s.leases.get x.1 = some lease ∧ lease.leaseId = x.2) ∨
    x.2 ∈ s.cancelled

namespace Custody

variable {s s' : Coordinator} {held held' : List (JobId × LeaseId)}

theorem perm (h : Custody s held) (hperm : held.Perm held') : Custody s held' where
  nodup := (hperm.map Prod.snd).nodup_iff.mp h.nodup
  used x hx := h.used x (hperm.mem_iff.mpr hx)
  active id lease hl := hperm.mem_iff.mp (h.active id lease hl)
  cancelled x hx := h.cancelled x (hperm.mem_iff.mpr hx)

theorem drop {x : JobId × LeaseId} (h : Custody s (held ++ [x]))
    (hnone : ∀ id, s.leases.get id = none) : Custody s held where
  nodup := by
    have hnodup := h.nodup
    rw [List.map_append] at hnodup
    exact hnodup.of_append_left
  used y hy := h.used y (List.mem_append_left _ hy)
  active id lease hl := by
    rw [hnone] at hl
    cases hl
  cancelled y hy := h.cancelled y (List.mem_append_left _ hy)

theorem withdraws {settled : Option (JobId × LeaseId)} (h : Custody s (settled.toList ++ held))
    (hw : Withdraws settled s s') (hgone : ∀ id l, settled = some (id, l) →
      ∀ lease, s'.leases.get id = some lease → lease.leaseId ≠ l) : Custody s' held where
  nodup := by
    have hnodup := h.nodup
    rw [List.map_append] at hnodup
    exact hnodup.of_append_right
  used x hx := hw.nextLeaseEpoch ▸ h.used x (List.mem_append_right _ hx)
  active id lease hl := by
    rcases List.mem_append.mp (h.active id lease (hw.leases id lease hl)) with hmem | hmem
    · exact absurd rfl (hgone id lease.leaseId (Option.mem_toList.mp hmem) lease hl)
    · exact hmem
  cancelled x hx := by
    rcases h.cancelled x (List.mem_append_right _ hx) with ⟨lease, hl, hid⟩ | hcancelled
    · rcases hw.ended x.1 lease hl with hl' | hl' | hsettled
      · exact Or.inl ⟨lease, hl', hid⟩
      · exact Or.inr (hid ▸ hl')
      · -- the settled lease is held nowhere else
        have hnodup := h.nodup
        rw [hsettled, hid, List.map_append, Option.toList_some, List.map_singleton,
          List.singleton_append, List.nodup_cons] at hnodup
        exact absurd (List.mem_map.mpr ⟨x, hx, rfl⟩) hnodup.1
    · exact Or.inr (hw.cancelled hcancelled)

theorem nothing (h : Custody s held) (hg : Grants s s' none) : Custody s' held := by
  cases hg with
  | nothing hleases hepoch hcancelled =>
    obtain ⟨hnodup, hused, hactive, hheld⟩ := h
    rw [← hepoch] at hused
    rw [← hleases] at hactive hheld
    rw [← hcancelled] at hheld
    exact ⟨hnodup, hused, hactive, hheld⟩

theorem grant {job : LeasedJob} (h : Custody s held) (hg : Grants s s' (some job)) :
    Custody s' (job.lease :: held) := by
  cases hg with
  | lease deadline _ hlease hfree hleases hepoch hcancelled =>
    have hkept : ∀ id lease, s.leases.get id = some lease → s'.leases.get id = some lease := by
      intro id lease hl
      rw [hleases, HashMap.get_insert, if_neg]
      · exact hl
      · rintro rfl
        rw [hfree] at hl
        cases hl
    refine ⟨?_, fun x hx => ?_, fun id lease hl => ?_, fun x hx => ?_⟩
    · rw [List.map_cons, List.nodup_cons]
      refine ⟨fun hmem => ?_, h.nodup⟩
      obtain ⟨x, hx, heq⟩ := List.mem_map.mp hmem
      have hlt := h.used x hx
      rw [heq, LeasedJob.lease, hlease] at hlt
      exact Nat.lt_irrefl _ hlt
    · rw [hepoch]
      rcases List.mem_cons.mp hx with rfl | hx
      · rw [LeasedJob.lease, hlease]
        exact Nat.lt_succ_self _
      · exact Nat.lt_succ_of_lt (h.used x hx)
    · rw [hleases, HashMap.get_insert] at hl
      split at hl
      · rename_i hid
        cases hl
        rw [hid]
        exact List.mem_cons_self
      · exact List.mem_cons_of_mem _ (h.active id lease hl)
    · rcases List.mem_cons.mp hx with rfl | hx
      · refine Or.inl ⟨⟨job.leaseId, deadline⟩, ?_, rfl⟩
        rw [hleases, LeasedJob.lease, HashMap.get_insert, if_pos rfl]
      · rcases h.cancelled x hx with ⟨lease, hl, hid⟩ | hx
        · exact Or.inl ⟨lease, hkept _ _ hl, hid⟩
        · exact Or.inr (hcancelled ▸ hx)

end Custody

/-! ## Jobs on their way to workers -/

namespace Worker

variable {handed : List (Sender × LeasedJob)} {reply : Sender} {job : LeasedJob}

theorem lease?_append_of_ne {w : Worker} (hne : w.reply? ≠ some reply) :
    w.lease? (handed ++ [(reply, job)]) = w.lease? handed := by
  cases w with
  | waiting reply' =>
    have hlookup : List.lookup reply' [(reply, job)] = none := by
      rw [List.lookup_cons]
      have : (reply' == reply) = false := by
        rw [beq_eq_false_iff_ne]
        rintro rfl
        exact hne rfl
      rw [this]
      rfl
    simp [lease?, job?, List.lookup_append, hlookup]
  | top | asking | running | reporting | stopped => rfl

theorem lookup_eq_none (h : reply ∉ handed.map Prod.fst) : handed.lookup reply = none := by
  rw [List.lookup_eq_none_iff]
  intro x hx
  rw [bne_iff_ne]
  rintro rfl
  exact h (List.mem_map.mpr ⟨x, hx, rfl⟩)

theorem lookup_eq_some (hnodup : (handed.map Prod.fst).Nodup) (h : (reply, job) ∈ handed) :
    handed.lookup reply = some job := by
  induction handed with
  | nil => cases h
  | cons x rest ih =>
    rw [List.map_cons, List.nodup_cons] at hnodup
    rcases List.mem_cons.mp h with rfl | h
    · simp
    · have hne : (reply == x.1) = false := by
        rw [beq_eq_false_iff_ne]
        rintro rfl
        exact hnodup.1 (List.mem_map.mpr ⟨_, h, rfl⟩)
      rw [List.lookup_cons, hne]
      exact ih hnodup.2 h

theorem leases_hand {workers : List Worker} (hwaits : (workers.filterMap reply?).Nodup)
    (hreply : reply ∈ workers.filterMap reply?) (hnew : reply ∉ handed.map Prod.fst) :
    (workers.filterMap (lease? (handed ++ [(reply, job)]))).Perm
      (job.lease :: workers.filterMap (lease? handed)) := by
  induction workers with
  | nil => cases hreply
  | cons w workers ih =>
    by_cases hw : w.reply? = some reply
    · cases w with
      | waiting reply' =>
        cases hw
        have hself? : (Worker.waiting reply).reply? = some reply := rfl
        rw [List.filterMap_cons_some hself?, List.nodup_cons] at hwaits
        have hrest : workers.filterMap (lease? (handed ++ [(reply, job)])) =
            workers.filterMap (lease? handed) := by
          refine List.filterMap_congr fun w hw => lease?_append_of_ne fun heq => ?_
          exact hwaits.1 (List.mem_filterMap.mpr ⟨w, hw, heq⟩)
        have hself : (Worker.waiting reply).lease? (handed ++ [(reply, job)]) = some job.lease := by
          simp [lease?, job?, List.lookup_append, lookup_eq_none hnew]
        have hbefore : (Worker.waiting reply).lease? handed = none := by
          simp [lease?, job?, lookup_eq_none hnew]
        rw [List.filterMap_cons_some hself, List.filterMap_cons_none hbefore, hrest]
      | top | asking | running | reporting | stopped => cases hw
    · have hmem : reply ∈ workers.filterMap reply? := by
        obtain ⟨w', hw', heq⟩ := List.mem_filterMap.mp hreply
        rcases List.mem_cons.mp hw' with rfl | hw'
        · exact absurd heq hw
        · exact List.mem_filterMap.mpr ⟨w', hw', heq⟩
      have hnodup : (workers.filterMap reply?).Nodup :=
        hwaits.sublist ((List.sublist_cons_self w workers).filterMap _)
      have hih := ih hnodup hmem
      rw [List.filterMap_cons, List.filterMap_cons, lease?_append_of_ne hw]
      cases w.lease? handed with
      | none => exact hih
      | some x => exact (hih.cons x).trans (List.Perm.swap _ _ _)

end Worker

theorem Custody.handsOut {R : Sender → Prop} {s s' : Coordinator} {workers : List Worker}
    {outs : List (JobId × LeaseId)} (hwaits : (workers.filterMap Worker.reply?).Nodup)
    (hR : ∀ reply, R reply → reply ∈ workers.filterMap Worker.reply?)
    (hsteps : Relation.ReflTransGen (HandsOut X R) s s') (hnodup : (s'.handed.map Prod.fst).Nodup)
    (h : Custody s (workers.filterMap (Worker.lease? s.handed) ++ outs)) :
    Custody s' (workers.filterMap (Worker.lease? s'.handed) ++ outs) := by
  induction hsteps with
  | refl => exact h
  | @tail s₁ s' _ hstep ih =>
    cases hstep with
    | nothing _ hg hhanded =>
      rw [hhanded] at hnodup ⊢
      exact (ih hnodup).nothing hg
    | hand _ reply job hreply hg hhanded =>
      rw [hhanded, List.map_append, List.nodup_append] at hnodup
      have hnew : reply ∉ s₁.handed.map Prod.fst := by
        intro hmem
        exact hnodup.2.2 reply hmem reply (by simp) rfl
      rw [hhanded]
      refine ((ih hnodup.1).grant hg).perm ?_
      exact ((Worker.leases_hand hwaits (hR reply hreply) hnew).append_right outs).symm

/-! ## The process -/

def workReply? : Sender × Reply.Kind → Option Sender
  | (reply, .work) => some reply
  | _ => none

namespace Coordinator

variable {env : Env} {s s' : Coordinator}

def served (s : Coordinator) : List Sender := s.answered.filterMap workReply?

theorem waiting_filterMap (s : Coordinator) :
    s.waiting.filterMap workReply? = s.parkedWorkers := by
  rw [waiting, List.filterMap_append, List.filterMap_map, List.filterMap_map]
  have hparked : workReply? ∘ (fun reply : Sender => (reply, Reply.Kind.work)) = some := rfl
  have hdone : workReply? ∘ (fun reply : Sender => (reply, Reply.Kind.done)) = fun _ => none := rfl
  rw [hparked, hdone, List.filterMap_some, List.filterMap_none, List.append_nil]

theorem exec_served (hidle : Idle s) {op : Op} (h : exec X config env op s = .ok () s') :
    (s'.served ++ s'.parkedWorkers).Perm
      (s.served ++ s.parkedWorkers ++ op.awaits.toList.filterMap workReply?) := by
  obtain ⟨s₁, hacts, hreceives⟩ := wp_ok (exec_receives hidle op) h
  have hperm := (hreceives.answered_perm.trans
    (hacts.answered_perm.append_right _)).filterMap workReply?
  simpa only [List.filterMap_append, waiting_filterMap, served] using hperm

theorem handed_sublist_served (s : Coordinator) : (s.handed.map Prod.fst).Sublist s.served := by
  rw [handed, List.map_filterMap, served, answered, List.filterMap_map]
  refine Slots.filterMap_sublist (fun x reply hx => ?_) s.sent
  obtain ⟨y, hy, rfl⟩ := Option.map_eq_some_iff.mp hx
  split at hy <;> cases hy
  rfl

theorem served_subset_sent (s : Coordinator) : s.served ⊆ s.sent.map Prod.fst := by
  intro reply hreply
  obtain ⟨x, hx, heq⟩ := List.mem_filterMap.mp hreply
  obtain ⟨y, hy, rfl⟩ := List.mem_map.mp hx
  refine List.mem_map.mpr ⟨y, hy, ?_⟩
  cases hkind : y.2.kind <;> simp only [workReply?, hkind] at heq <;> cases heq
  rfl

end Coordinator

namespace Pool

variable {p p' : Pool} {k : Nat} {w w' : Worker} {env : Env} {op : Op}

def pending (p : Pool) : List Sender :=
  p.coordinator.parkedWorkers ++ (p.channel.filterMap Command.awaits).filterMap workReply?

theorem Op.awaits_eq (op : Op) : op.awaits = op.command?.bind Command.awaits := by
  cases op <;> rfl

theorem channel_filterMap {β : Type} (f : Command → Option β) (hturn : p.Turn late env op) :
    p.channel.filterMap f = (op.command?.bind f).toList ++ (p.rest op).filterMap f := by
  cases op with
  | handle cmd =>
    obtain ⟨tail, htail⟩ := List.head?_eq_some_iff.mp hturn
    rw [rest, htail, List.tail_cons, List.filterMap_cons]
    change (match f cmd with
      | none => _
      | some b => _) = (f cmd).toList ++ _
    cases f cmd <;> rfl
  | processDueRetries | checkLeaseTimeouts | tryDispatchParkedWorkers | checkExit | hangUp => rfl

/-- Leases are in good custody: requests for work are answered once, every request that waits
is the request of a worker that waits, and the leases are over when the loop is. -/
structure Exclusive (p : Pool) : Prop where
  custody : Custody p.coordinator p.held
  asked : (p.coordinator.served ++ p.pending).Nodup
  waits : (p.workers.filterMap Worker.reply?).Nodup
  awaited : p.coordinator.shuttingDown = false → p.coordinator.exited = false →
    ∀ reply ∈ p.pending, reply ∈ p.workers.filterMap Worker.reply?
  ended : p.coordinator.exited = true → ∀ id, p.coordinator.leases.get id = none

namespace Exclusive

theorem handed_nodup (h : Exclusive p) : (p.coordinator.handed.map Prod.fst).Nodup :=
  h.asked.of_append_left.sublist (handed_sublist_served _)

theorem moveTo (h : Exclusive p) (hw : p.workers[k]? = some w)
    (hjob : w'.lease? p.coordinator.handed = w.lease? p.coordinator.handed)
    (hreply : w'.reply? = none)
    (hleft : ∀ reply, w.reply? = some reply → reply ∈ p.pending →
      p.coordinator.shuttingDown = true ∨ p.coordinator.exited = true) :
    Exclusive (p.moveTo k w') := by
  have hperm := Slots.filterMap_set_perm (f := Worker.reply?) (b := w') hw
  rw [hreply, Option.toList_none, List.append_nil] at hperm
  refine ⟨?_, h.asked, ?_, fun hup hloop reply hmem => ?_, h.ended⟩
  · exact h.custody.perm ((Slots.filterMap_set_same hw hjob).append_right _).symm
  · exact (hperm.nodup_iff.mpr h.waits).of_append_left
  · have hwaits := hperm.mem_iff.mpr (h.awaited hup hloop reply hmem)
    rcases List.mem_append.mp hwaits with hwaits | hwaits
    · exact hwaits
    · rcases hleft reply (Option.mem_toList.mp hwaits) hmem with hdown | hexited
      · cases hup.symm.trans hdown
      · cases hloop.symm.trans hexited

theorem not_pending (h : Exclusive p) {reply : Sender} {job : Option LeasedJob}
    (hsent : (reply, .work job) ∈ p.coordinator.sent) : reply ∉ p.pending := by
  have hserved : reply ∈ p.coordinator.served :=
    List.mem_filterMap.mpr ⟨(reply, .work), List.mem_map.mpr ⟨_, hsent, rfl⟩, rfl⟩
  exact fun hmem => List.disjoint_of_nodup_append h.asked hserved hmem

theorem note (h : Exclusive p) (e : WorkerEvent) : Exclusive (p.note e) :=
  ⟨h.custody, h.asked, h.waits, h.awaited, h.ended⟩

theorem push {cmd : Command} (h : Exclusive p) (hcmd : cmd.fromWorker = false) :
    Exclusive (p.push cmd) := by
  have hawaits : [cmd].filterMap Command.awaits |>.filterMap workReply? |> (· = []) := by
    cases cmd <;> first | rfl | cases hcmd
  have houtcome : [cmd].filterMap Command.outcome? = [] := by
    cases cmd <;> first | rfl | cases hcmd
  have hpending : (p.push cmd).pending = p.pending := by
    simp only [pending, Pool.push, List.filterMap_append, hawaits, List.append_nil]
  have hheld : (p.push cmd).held = p.held := by
    simp only [held, Pool.push, List.filterMap_append, houtcome, List.append_nil]
  exact ⟨hheld ▸ h.custody, hpending ▸ h.asked, h.waits, hpending ▸ h.awaited, h.ended⟩

theorem ask {reply : Sender} (h : Exclusive p) (hw : p.workers[k]? = some .asking)
    (hnew : reply ∉ p.replies) :
    Exclusive ((p.push (.fetchWork reply)).moveTo k (.waiting reply)) := by
  simp only [replies, List.mem_append, not_or] at hnew
  obtain ⟨⟨⟨⟨hsent, hparked⟩, _⟩, hchannel⟩, hworkers⟩ := hnew
  have hchannel' : reply ∉ (p.channel.filterMap Command.awaits).filterMap workReply? := by
    intro hmem
    obtain ⟨x, hx, heq⟩ := List.mem_filterMap.mp hmem
    obtain ⟨cmd, hcmd, hawaits⟩ := List.mem_filterMap.mp hx
    refine hchannel (List.mem_filterMap.mpr ⟨cmd, hcmd, ?_⟩)
    cases cmd <;> cases hawaits <;> cases heq
    rfl
  have hpending : ((p.push (.fetchWork reply)).moveTo k (.waiting reply)).pending =
      p.pending ++ [reply] := by
    simp only [pending, Pool.push, Pool.moveTo, List.filterMap_append, List.append_assoc]
    rfl
  have hserved : reply ∉ p.coordinator.served := fun hmem => hsent (served_subset_sent _ hmem)
  have hwaits := Slots.filterMap_set_add (f := Worker.reply?) (b := .waiting reply) hw rfl rfl
  have hlease : (Worker.waiting reply).lease? p.coordinator.handed = none := by
    have hhanded : reply ∉ p.coordinator.handed.map Prod.fst := fun hmem =>
      hserved ((handed_sublist_served _).subset hmem)
    simp [Worker.lease?, Worker.job?, Worker.lookup_eq_none hhanded]
  refine ⟨?_, ?_, ?_, fun hup hloop r hr => ?_, h.ended⟩
  · have houtcomes : (p.channel ++ [Command.fetchWork reply]).filterMap Command.outcome? =
        p.channel.filterMap Command.outcome? := by
      rw [List.filterMap_append]
      exact List.append_nil _
    refine h.custody.perm ((Slots.filterMap_set_same hw hlease).symm.append ?_)
    exact .of_eq houtcomes.symm
  · rw [hpending, ← List.append_assoc]
    refine List.Nodup.append h.asked (List.nodup_singleton _) ?_
    rw [List.disjoint_singleton]
    simp only [pending, List.mem_append, not_or]
    exact ⟨hserved, hparked, hchannel'⟩
  · refine hwaits.nodup_iff.mpr (List.Nodup.append h.waits (List.nodup_singleton _) ?_)
    exact List.disjoint_singleton.mpr hworkers
  · refine hwaits.mem_iff.mpr ?_
    rw [hpending] at hr
    rcases List.mem_append.mp hr with hr | hr
    · exact List.mem_append_left _ (h.awaited hup hloop r hr)
    · exact List.mem_append_right _ hr

theorem held_top {job : LeasedJob} {outcome : WorkerOutcome}
    (hw : p.workers[k]? = some (.reporting job outcome)) :
    p.held.Perm ((p.moveTo k .top).held ++ [job.lease]) := by
  have hdrop := Slots.filterMap_set_drop (f := Worker.lease? p.coordinator.handed) (b := .top)
    hw rfl rfl
  refine (hdrop.append_right _).trans ?_
  rw [held, Pool.moveTo, List.append_assoc, List.append_assoc]
  exact List.Perm.append_left _ List.perm_append_comm

theorem report {job : LeasedJob} {outcome : WorkerOutcome} (h : Exclusive p)
    (hw : p.workers[k]? = some (.reporting job outcome)) :
    Exclusive ((p.push (.workerOutcome job.context.id job.leaseId outcome)).moveTo k .top) := by
  have hpending : ((p.push (.workerOutcome job.context.id job.leaseId outcome)).moveTo k
      .top).pending = p.pending := by
    simp [pending, Pool.push, Pool.moveTo, Command.awaits]
  have hwaits := Slots.filterMap_set_same (f := Worker.reply?) (b := .top) hw rfl
  refine ⟨?_, hpending ▸ h.asked, hwaits.nodup_iff.mpr h.waits, fun hup hloop r hr => ?_, h.ended⟩
  · refine h.custody.perm ((held_top hw).trans (.of_eq ?_))
    simp only [held, Pool.push, Pool.moveTo, List.filterMap_append, List.append_assoc]
    rfl
  · exact hwaits.mem_iff.mpr (h.awaited hup hloop r (hpending ▸ hr))

theorem reportFails {job : LeasedJob} {outcome : WorkerOutcome} (h : Exclusive p)
    (hw : p.workers[k]? = some (.reporting job outcome)) (hexited : p.coordinator.exited = true) :
    Exclusive (p.moveTo k .top) := by
  have hwaits := Slots.filterMap_set_same (f := Worker.reply?) (b := .top) hw rfl
  refine ⟨(h.custody.perm (held_top hw)).drop (h.ended hexited), h.asked,
    hwaits.nodup_iff.mpr h.waits, fun _ hloop => ?_, h.ended⟩
  cases hloop.symm.trans hexited

theorem coordinator {base : List WalRecord} {past : List LeaseId} {s₀ s : Coordinator}
    (h : Exclusive p) (hs : Sound X config base past s₀ p.coordinator)
    (hidle : Idle p.coordinator) (hturn : p.Turn late env op)
    (henabled : op.Enabled Fault.Clean env p.coordinator)
    (hexec : exec X config env op p.coordinator = .ok () s) :
    Exclusive { p with coordinator := s, channel := p.rest op } := by
  have hawaits : p.channel.filterMap Command.awaits =
      op.awaits.toList ++ (p.rest op).filterMap Command.awaits :=
    Op.awaits_eq op ▸ channel_filterMap Command.awaits hturn
  have houtcomes : p.channel.filterMap Command.outcome? =
      op.settled.toList ++ (p.rest op).filterMap Command.outcome? :=
    channel_filterMap Command.outcome? hturn
  have hasked : (s.served ++ pending { p with coordinator := s, channel := p.rest op }).Nodup := by
    have hperm := (exec_served hidle hexec).append_right
      (((p.rest op).filterMap Command.awaits).filterMap workReply?)
    have hbefore := h.asked
    rw [pending, hawaits, List.filterMap_append, ← List.append_assoc, ← List.append_assoc] at hbefore
    rw [pending, ← List.append_assoc]
    exact hperm.nodup_iff.mpr hbefore
  have hup : s.shuttingDown = false → p.coordinator.shuttingDown = false := by
    intro hs'
    cases hdown : p.coordinator.shuttingDown with
    | false => rfl
    | true => cases (exec_down hdown hexec).1.symm.trans hs'
  refine ⟨?_, hasked, h.waits, fun hup' _ reply hmem => ?_, fun hexited => ?_⟩
  · by_cases hop : op.leases
    · have hsettled : op.settled = none := by
        cases op with
        | handle cmd => cases cmd <;> first | rfl | cases hop
        | processDueRetries | checkLeaseTimeouts | tryDispatchParkedWorkers | checkExit
        | hangUp => rfl
      rw [hsettled, Option.toList_none, List.nil_append] at houtcomes
      have hcustody := h.custody
      rw [held, houtcomes] at hcustody
      have hhands := wp_ok (exec_handsOut henabled.fault hs hop henabled
        (R := (· ∈ p.workers.filterMap Worker.reply?)) ?_ ?_) hexec
      · refine hcustody.handsOut h.waits (fun _ hr => hr) hhands.1 ?_
        exact hasked.of_append_left.sublist (handed_sublist_served s)
      · intro hup reply hreply
        exact h.awaited hup henabled.running reply (List.mem_append_left _ hreply)
      · rintro hup reply rfl
        refine h.awaited hup henabled.running reply (List.mem_append_right _ ?_)
        rw [hawaits]
        exact List.mem_cons_self
    · rw [Bool.not_eq_true] at hop
      obtain ⟨hw, hgone⟩ := exec_withdraws hidle hop hexec
      have hcustody := h.custody
      rw [held, houtcomes] at hcustody
      have hperm : (p.workers.filterMap (Worker.lease? p.coordinator.handed) ++
          (op.settled.toList ++ (p.rest op).filterMap Command.outcome?)).Perm
          (op.settled.toList ++ held { p with coordinator := s, channel := p.rest op }) := by
        rw [held, hw.handed, ← List.append_assoc, ← List.append_assoc]
        exact List.perm_append_comm.append_right _
      exact (hcustody.perm hperm).withdraws hw hgone
  · refine h.awaited (hup hup') henabled.running reply ?_
    rw [pending, hawaits, List.filterMap_append]
    rcases List.mem_append.mp hmem with hmem | hmem
    · rcases exec_parkedWorkers hidle hexec hmem with hmem | hop
      · exact List.mem_append_left _ hmem
      · refine List.mem_append_right _ (List.mem_append_left _ ?_)
        rw [hop]
        exact List.mem_cons_self
    · exact List.mem_append_right _ (List.mem_append_right _ hmem)
  · by_cases hop : op = .hangUp
    · -- no worker is left that could hold a lease
      subst hop
      obtain ⟨hempty, hstopped⟩ := hturn
      have hheld : p.held = [] := by
        rw [held, hempty, List.filterMap_nil, List.append_nil, List.filterMap_eq_nil_iff]
        intro w hw
        rw [hstopped w hw]
        rfl
      have hleases : s.leases = p.coordinator.leases := by
        cases hexec
        rfl
      intro id
      change s.leases.get id = none
      rw [hleases, Option.eq_none_iff_forall_ne_some]
      intro lease hl
      have hmem := h.custody.active id lease hl
      rw [hheld] at hmem
      cases hmem
    · rcases exec_exited hidle hop hexec with hsame | hnone
      · cases (hsame.trans henabled.running).symm.trans hexited
      · exact hnone

theorem step {base : List WalRecord} {past : List LeaseId} {s₀ : Coordinator} (h : Exclusive p)
    (hs : Sound X config base past s₀ p.coordinator) (hidle : Idle p.coordinator)
    (hstep : PoolStep X Fault.Clean config late p p') : Exclusive p' := by
  have hidleWorker : ∀ {w : Worker}, w.reply? = none → ∀ reply, w.reply? = some reply →
      reply ∈ p.pending → p.coordinator.shuttingDown = true ∨ p.coordinator.exited = true := by
    intro w hnone reply hsome
    cases hnone.symm.trans hsome
  cases hstep with
  | acquire | abandon =>
    exact ⟨h.custody.nothing (.nothing rfl rfl rfl rfl), h.asked, h.waits, h.awaited, h.ended⟩
  | client hcmd => exact h.push hcmd
  | coordinator hturn henabled hexec => exact h.coordinator hs hidle hturn henabled hexec
  | check hw => exact h.moveTo hw (by split <;> rfl) (by split <;> rfl) (hidleWorker rfl)
  | ask hw _ hnew => exact h.ask hw hnew
  | askFails hw => exact h.moveTo hw rfl rfl (hidleWorker rfl)
  | @fetched k reply job hw hreply =>
    refine h.moveTo hw ?_ rfl fun r hr hmem => ?_
    · have hlookup := Worker.lookup_eq_some h.handed_nodup (mem_handed.mpr hreply)
      simp [Worker.lease?, Worker.job?, hlookup]
    · cases hr
      exact absurd hmem (h.not_pending hreply)
  | @refused k reply hw hreply =>
    refine h.moveTo hw ?_ rfl fun r hr hmem => ?_
    · have hhanded : reply ∉ p.coordinator.handed.map Prod.fst := by
        intro hmem
        obtain ⟨⟨_, job⟩, hjob, rfl⟩ := List.mem_map.mp hmem
        have hserved := h.asked.of_append_left
        rw [served, answered, List.filterMap_map] at hserved
        have heq := Slots.eq_of_nodup hserved hreply (mem_handed.mp hjob) rfl rfl
        cases heq
      simp [Worker.lease?, Worker.job?, Worker.lookup_eq_none hhanded]
    · cases hr
      exact absurd hmem (h.not_pending hreply)
  | @givesUp k reply hw hnone hover =>
    refine h.moveTo hw ?_ rfl fun r _ _ => ?_
    · have hhanded : reply ∉ p.coordinator.handed.map Prod.fst := by
        intro hmem
        obtain ⟨⟨_, job⟩, hjob, rfl⟩ := List.mem_map.mp hmem
        exact hnone _ (mem_handed.mp hjob)
      simp [Worker.lease?, Worker.job?, Worker.lookup_eq_none hhanded]
    · rcases hover with hexited | htoken
      · exact Or.inr hexited
      · cases hdown : p.coordinator.shuttingDown with
        | true => exact Or.inl rfl
        | false => cases (hidle hdown).2.2.symm.trans htoken
  | join hw => exact h.moveTo hw rfl rfl (hidleWorker rfl)
  | finish hw | abort hw => exact (h.note _).moveTo hw rfl rfl (hidleWorker rfl)
  | report hw => exact (h.report hw).note _
  | reportFails hw hexited => exact h.reportFails hw hexited

end Exclusive

end Pool

theorem PoolStep.mono {Q : Fault → Prop} (hPQ : ∀ fault, P fault → Q fault) {p p' : Pool}
    (h : PoolStep X P config late p p') : PoolStep X Q config late p p' := by
  cases h with
  | acquire hsem havail hopen => exact .acquire hsem havail hopen
  | abandon hpermit => exact .abandon hpermit
  | client hcmd hsend => exact .client hcmd hsend
  | coordinator hturn henabled hexec =>
    exact .coordinator hturn { henabled with fault := fun t => hPQ _ (henabled.fault t) } hexec
  | check hw => exact .check hw
  | ask hw hsend hnew => exact .ask hw hsend hnew
  | askFails hw hclosed => exact .askFails hw hclosed
  | fetched hw hreply => exact .fetched hw hreply
  | refused hw hreply => exact .refused hw hreply
  | givesUp hw hnone hover => exact .givesUp hw hnone hover
  | finish hw hresult => exact .finish hw hresult
  | join hw hselect => exact .join hw hselect
  | abort hw hselect => exact .abort hw hselect
  | report hw hsend => exact .report hw hsend
  | reportFails hw hclosed => exact .reportFails hw hclosed

end DurableQueue
