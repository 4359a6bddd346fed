import DurableQueue.Defs.StartLaws
import DurableQueue.Defs.System
import DurableQueue.Defs.Coordinator.Leases

/-! What holds over any number of restarts. -/

namespace DurableQueue

open WriterThread Coordinator

variable {X : Crates} {config : RuntimeConfig} {log : List WalRecord}

/-! ## The file between two processes -/

/-- The file holds the log, possibly with a torn tail; a file without a header holds none. -/
inductive Stores (X : Crates) : Option (List UInt8) → List WalRecord → Prop
  | missing : Stores X none []
  | empty : Stores X (some []) []
  | holds {w : WriterThread} {log : List WalRecord} {torn : List UInt8} (h : Holds X w log torn) :
      Stores X (some w.file) log

theorem Stores.logOf_eq (hX : X.Lawful) {file : Option (List UInt8)} (h : Stores X file log) :
    logOf X file = log := by
  cases h with
  | missing | empty => rfl
  | holds h => exact logOf_holds hX h

theorem recover_stores (hX : X.Lawful) (hC : X.Compact) (hlegal : Legal config log)
    {file : Option (List UInt8)} (h : Stores X file log) (env : RecoverEnv) :
    (∃ rec file', recover X env config file = (.ok rec, file') ∧
        Recovers env config log rec ∧
        Holds X ⟨file', rec.nextSequence⟩ (log ++ reconciliationOf env log) []) ∨
      ∃ n seq' file', recover X env config file = (.error (.io "File too large"), file') ∧
        Holds X ⟨file', seq'⟩ (log ++ (reconciliationOf env log).take n) [] := by
  cases h with
  | missing | empty => exact Or.inl ⟨_, _, rfl, recovers_empty env config, fresh_holds⟩
  | holds h => exact recover_holds hX hC hlegal h env

theorem Torn.cut {torn p : List UInt8} (h : Torn X torn) (hp : p <+: torn) : Torn X p := by
  rcases h with rfl | ⟨seq, r, hr, hpre, hlt⟩
  · rw [List.prefix_nil.mp hp]
    exact .nil
  · exact Or.inr ⟨seq, r, hr, hp.trans hpre, hp.length_le.trans_lt hlt⟩

theorem WriterThread.Holds.cut {w : WriterThread} {recs : List WalRecord} {torn p : List UInt8}
    (h : Holds X w (log ++ recs) torn) (hp : p <+: w.file)
    (hlen : (logBytes X log).length ≤ p.length) :
    ∃ n torn' seq, Holds X ⟨p, seq⟩ (log ++ recs.take n) torn' := by
  have hsize : p.length ≤ maxFileSize := hp.length_le.trans h.size_le
  have hencodes : ∀ n, ∀ r ∈ log ++ recs.take n, X.Encodes r := fun n r hr =>
    h.encodes r (((List.take_sublist n recs).append_left log).subset hr)
  have hfile : w.file = logBytes X log ++ (frames X (1 + log.length) recs ++ torn) := by
    rw [h.file_eq, logBytes, frames_append, logBytes]
    simp only [List.append_assoc]
  rw [hfile] at hp
  rcases Bytes.prefix_append_cases hp with ⟨_, hlt⟩ | ⟨q, rfl, hq⟩
  · exact absurd hlen (Nat.not_le.mpr hlt)
  rcases Bytes.prefix_append_cases hq with ⟨hpre, _⟩ | ⟨t, rfl, ht⟩
  · obtain ⟨n, _, torn', rfl, htorn, _⟩ :=
      frames_prefix_cases (fun r hr => h.encodes r (List.mem_append_right _ hr)) hpre
    refine ⟨n, torn', _, ?_, rfl, hencodes n, htorn, hsize⟩
    simp only [logBytes, frames_append, List.append_assoc]
  · refine ⟨recs.length, t, _, ?_, rfl, hencodes _, h.torn.cut ht, hsize⟩
    simp only [logBytes, frames_append, List.take_length, List.append_assoc]

theorem interruptedRecovery_stores (hX : X.Lawful) (hC : X.Compact) (hlegal : Legal config log)
    {file : List UInt8} (hfile : file ≠ []) (h : Stores X (some file) log) (env : RecoverEnv)
    (written : Nat) :
    ∃ n, Stores X (some (interruptedRecovery X env config file written))
      (log ++ (reconciliationOf env log).take n) := by
  cases h with
  | empty => exact absurd rfl hfile
  | @holds w _ torn h =>
    have hcut : interruptedRecovery X env config w.file written =
        (recover X env config (some w.file)).2.take ((logBytes X log).length + written) := by
      simp only [interruptedRecovery, h.scan hX, h.repaired hX rfl]
    have hcutLen : ∀ {w : WriterThread} {recs}, Holds X w (log ++ recs) [] →
        (logBytes X log).length ≤ (w.file.take ((logBytes X log).length + written)).length := by
      intro w recs hh
      rw [List.length_take, hh.file_eq, List.append_nil, logBytes, logBytes, frames_append]
      simp only [List.length_append]
      omega
    rw [hcut]
    rcases recover_holds hX hC hlegal h env with
      ⟨rec, file', hrec, _, hh⟩ | ⟨n, seq', file', hrec, hh⟩
    · obtain ⟨n, torn', seq, hh'⟩ := hh.cut (List.take_prefix _ _) (hcutLen hh)
      rw [hrec]
      exact ⟨n, .holds hh'⟩
    · obtain ⟨n', torn', seq, hh'⟩ := hh.cut (List.take_prefix _ _) (hcutLen hh)
      rw [hrec]
      rw [List.take_take] at hh'
      exact ⟨_, .holds hh'⟩

/-! ## Starting on a legal log -/

theorem sound_recovered {env : BootEnv} {rec : RecoveredState} {file : List UInt8}
    {sems : HashMap String Semaphore} {past : List LeaseId} (hlegal : Legal config log)
    (hrec : Recovers env.recovery config log rec)
    (hholds : Holds X ⟨file, rec.nextSequence⟩ (log ++ reconciliationOf env.recovery log) [])
    (hsems : reservePermitsForRecovered env (newSemaphores config) rec = .ok sems)
    (hpast : ∀ l ∈ past, l.epoch.toNat ≤ (maxEpoch log).toNat) :
    let s₀ := newWithRecovery env config (.wal ⟨file, rec.nextSequence⟩) sems (some rec)
    Sound X config (log ++ reconciliationOf env.recovery log) past s₀ s₀ := by
  intro s₀
  have hacked : log ++ reconciliationOf env.recovery log ++ s₀.acked =
      log ++ reconciliationOf env.recovery log := List.append_nil _
  obtain ⟨h₁, h₂, h₃, h₄, h₅⟩ := hrec.counted
  refine ⟨placement_recovered hrec, accounts_recovered hrec.lists hsems, ?_, ?_⟩
  · refine ⟨?_, ⟨_, rfl, ?_⟩, ?_, ?_, ?_⟩
    · rw [hacked]
      exact hlegal.recovered_all env.recovery
    · rwa [hacked]
    · rw [hacked]
      change rec.store.UpToRequeue _
      rw [hrec.store]
      exact .refl _
    · rw [hacked, maxEpoch_reconciled env.recovery hlegal.nodup]
      exact hrec.nextLeaseEpoch
    · rw [hacked]
      exact ⟨h₁, h₂, h₃, h₄, h₅⟩
  · refine ⟨fun l hl => ?_, fun id lease hl => by cases hl⟩
    have hmem : l ∈ past ++ [] := hl
    rw [List.append_nil] at hmem
    exact Nat.lt_of_le_of_lt (hpast l hmem) (hrec.nextLeaseEpoch ▸ Nat.lt_succ_self _)

/-! ## The invariant -/

/-- What holds of the system, whether a process is running or not: `log` is what the disk
holds, it is legal, and it contains everything that was ever acknowledged. -/
def Sys.At (X : Crates) (config : RuntimeConfig) (log : List WalRecord) : Sys → Prop
  | .down past file => Stores X file log ∧ Legal config log ∧
      (past.filterMap Event.asAcked).Sublist log ∧
      ∀ l ∈ past.filterMap Event.asEnded, l.epoch.toNat ≤ (maxEpoch log).toNat
  | .up past s₀ s => ∃ base, log = base ++ s.acked ∧
      Sound X config base (past.filterMap Event.asEnded) s₀ s ∧
      (past.filterMap Event.asAcked).Sublist base

theorem Sys.at_init : Sys.At X config [] (.down [] none) :=
  ⟨.missing, .nil, .slnil, fun _ h => nomatch h⟩

theorem Sys.At.append {past : List Event} {file file' : Option (List UInt8)}
    (h : Sys.At X config log (.down past file)) {recs : List WalRecord}
    (hlegal : Legal config (log ++ recs)) (hstores : Stores X file' (log ++ recs)) :
    Sys.At X config (log ++ recs) (.down past file') :=
  ⟨hstores, hlegal, h.2.2.1.trans (List.sublist_append_left _ _),
    fun l hl => (h.2.2.2 l hl).trans (maxEpoch_le_append log recs)⟩

theorem Sys.at_halted {base : List WalRecord} {past : List Event} {s₀ s s' : Coordinator}
    (h : Sound X config base (past.filterMap Event.asEnded) s₀ s)
    (hacked : (past.filterMap Event.asAcked).Sublist base) (hstorage : s'.storage = s.storage)
    (hjournal : s'.journal = s.journal) :
    Sys.At X config (base ++ s.acked) (.down (past ++ s'.journal) (some s'.logFile)) := by
  obtain ⟨w, hw, hholds⟩ := h.logged.holds
  have hfile : s'.logFile = w.file := by rw [logFile, hstorage, hw]
  rw [hjournal]
  refine ⟨hfile ▸ .holds hholds, h.logged.legal, ?_, fun l hl => ?_⟩
  · rw [List.filterMap_append]
    exact hacked.append (List.Sublist.refl _)
  · rw [List.filterMap_append] at hl
    have hlt := h.leases.used l hl
    rw [h.logged.epoch] at hlt
    exact Nat.le_of_lt_succ hlt

theorem startWal_error {env : BootEnv} {file file' : Option (List UInt8)} {e : Error}
    (h : startWal X env config file = (.error e, file')) :
    file' = file ∨ file' = some (recover X env.recovery config file).2 := by
  unfold startWal at h
  split at h
  · exact Or.inl (Prod.mk.inj h).2.symm
  · right
    split at h
    · rename_i heq
      rw [heq]
      exact (Prod.mk.inj h).2.symm
    · rename_i heq
      rw [heq]
      split at h
      · exact (Prod.mk.inj h).2.symm
      · cases h

inductive Sys.Grows (X : Crates) (config : RuntimeConfig) (log : List WalRecord) :
    Sys → Sys → List WalRecord → Prop
  | boot {past : List Event} {file : Option (List UInt8)} {env : BootEnv} {rec : RecoveredState}
      {storage : Storage} {sems : HashMap String Semaphore}
      (h : Recovers env.recovery config log rec) :
      Grows X config log (.down past file) (.up past
        (newWithRecovery env config storage sems (some rec))
        (newWithRecovery env config storage sems (some rec))) (reconciliationOf env.recovery log)
  | rest {past : List Event} {file file' : Option (List UInt8)} {recs : List WalRecord}
      (h : ∀ r ∈ recs, Reconciles log r) :
      Grows X config log (.down past file) (.down past file') recs
  | proc {past : List Event} {s₀ s s' : Coordinator} {recs : List WalRecord}
      (hsteps : Steps X Fault.Clean s s') (hrecs : s'.acked = s.acked ++ recs) :
      Grows X config log (.up past s₀ s) (.up past s₀ s') recs
  | ends {past past' : List Event} {s₀ s s' : Coordinator} {file : Option (List UInt8)}
      {recs landed : List WalRecord} (hsteps : Steps X Fault.Clean s s')
      (hrecs : s'.acked = s.acked ++ recs)
      (hlanded : landed = [] ∨ ∃ r pre expose, landed = [r] ∧ Offers s' r pre expose) :
      Grows X config log (.up past s₀ s) (.down past' file) (recs ++ landed)

/-- Whatever happens to the system, the log on disk is only appended to. -/
theorem Sys.grows_step (hX : X.Lawful) (hC : X.Compact) {sys sys' : Sys}
    (h : SysStep X Fault.Clean config sys sys') (hat : sys.At X config log) :
    ∃ recs, sys.Grows X config log sys' recs ∧ sys'.At X config (log ++ recs) := by
  cases h with
  | @boot past file file' env s h =>
    obtain ⟨hstores, hlegal, hacked, hended⟩ := hat
    obtain ⟨rec, f, sems, _, hrec, _, hsems, rfl⟩ := startWal_ok h
    rcases recover_stores hX hC hlegal hstores env.recovery with
      ⟨rec', f', hrec', hrecovers, hholds⟩ | ⟨_, _, _, hrec', _⟩
    · rw [hrec] at hrec'
      cases hrec'
      exact ⟨_, .boot hrecovers, _, (List.append_nil _).symm,
        sound_recovered hlegal hrecovers hholds hsems hended,
        hacked.trans (List.sublist_append_left _ _)⟩
    · rw [hrec] at hrec'
      cases hrec'
  | @bootFails past file file' env e h =>
    have hreconciles := reconciliationOf_reconciles env.recovery hat.2.1.nodup
    rcases startWal_error h with rfl | rfl
    · exact ⟨[], .rest (fun _ h => nomatch h), by rwa [List.append_nil]⟩
    · rcases recover_stores hX hC hat.2.1 hat.1 env.recovery with
        ⟨_, _, hrec, _, hholds⟩ | ⟨n, _, _, hrec, hholds⟩
      · rw [hrec]
        exact ⟨_, .rest hreconciles,
          hat.append (hat.2.1.recovered_all env.recovery) (.holds hholds)⟩
      · rw [hrec]
        exact ⟨_, .rest (fun r hr => hreconciles r (List.mem_of_mem_take hr)),
          hat.append (hat.2.1.recovered env.recovery n) (.holds hholds)⟩
  | bootDies hfile env written =>
    have hreconciles := reconciliationOf_reconciles env.recovery hat.2.1.nodup
    obtain ⟨n, hstores'⟩ :=
      interruptedRecovery_stores hX hC hat.2.1 hfile hat.1 env.recovery written
    exact ⟨_, .rest (fun r hr => hreconciles r (List.mem_of_mem_take hr)),
      hat.append (hat.2.1.recovered env.recovery n) hstores'⟩
  | create =>
    obtain ⟨hstores, hrest⟩ := hat
    cases hstores
    exact ⟨[], .rest (fun _ h => nomatch h), .empty, hrest⟩
  | proc h =>
    obtain ⟨base, rfl, hsound, hacked⟩ := hat
    have hsteps := h.steps hsound.placement
    obtain ⟨recs, hrecs⟩ := Steps.acked_append hsteps
    exact ⟨recs, .proc hsteps hrecs, base, by rw [hrecs, List.append_assoc],
      hsound.steps hsteps, hacked⟩
  | @stop past s₀ s =>
    obtain ⟨base, rfl, hsound, hacked⟩ := hat
    refine ⟨[] ++ [], .ends .refl (List.append_nil _).symm (.inl rfl), ?_⟩
    rw [List.append_nil, List.append_nil]
    exact Sys.at_halted hsound hacked rfl rfl
  | @dies past s₀ s s' op env r file henabled h =>
    obtain ⟨base, rfl, hsound, hacked⟩ := hat
    obtain ⟨s₁, hsteps, hdies⟩ := wp_error (exec_takes hsound.placement henabled) h
    have hsound₁ := hsound.steps hsteps
    obtain ⟨⟨landed, torn, seq, hlanded, hholds, hlegal⟩, hacked', _, _, _, hused⟩ :=
      hsound₁.dies hdies
    obtain ⟨recs, hrecs⟩ := Steps.acked_append hsteps
    obtain @⟨_, expose, _, _, _, hoffers, _, _⟩ := hdies
    refine ⟨recs ++ landed, .ends hsteps hrecs
      (hlanded.imp_right fun heq => ⟨_, _, _, heq, hoffers⟩), ?_⟩
    rw [← List.append_assoc, List.append_assoc base, ← hrecs]
    refine ⟨.holds hholds, hlegal, ?_, fun l hl => ?_⟩
    · rw [List.filterMap_append]
      refine List.Sublist.trans ?_ (List.sublist_append_left _ _)
      exact hacked.append (hacked' ▸ List.Sublist.refl _)
    · rw [List.filterMap_append] at hl
      have hlt := hused l hl
      rw [hsound₁.logged.epoch] at hlt
      exact (Nat.le_of_lt_succ hlt).trans (maxEpoch_le_append _ _)
  | @panics past s₀ s s' op env henabled h =>
    obtain ⟨base, rfl, hsound, hacked⟩ := hat
    obtain ⟨s₁, hsteps, hdies⟩ := wp_error (exec_takes hsound.placement henabled) h
    obtain ⟨recs, hrecs⟩ := Steps.acked_append hsteps
    refine ⟨recs ++ [], .ends hsteps hrecs (.inl rfl), ?_⟩
    rw [List.append_nil, List.append_assoc, ← hrecs]
    cases hdies with
    | panic hstorage hjournal _ =>
      exact Sys.at_halted (hsound.steps hsteps) hacked hstorage hjournal

theorem Sys.at_steps (hX : X.Lawful) (hC : X.Compact) {sys sys' : Sys}
    (h : Relation.ReflTransGen (SysStep X Fault.Clean config) sys sys')
    (hat : sys.At X config log) : ∃ recs, sys'.At X config (log ++ recs) := by
  induction h with
  | refl => exact ⟨[], by rwa [List.append_nil]⟩
  | tail _ hstep ih =>
    obtain ⟨recs, hat'⟩ := ih
    obtain ⟨recs', _, hat''⟩ := Sys.grows_step hX hC hstep hat'
    exact ⟨recs ++ recs', by rwa [← List.append_assoc]⟩

theorem Sys.At.log_eq (hX : X.Lawful) {sys : Sys} (h : sys.At X config log) :
    sys.log X = log := by
  cases sys with
  | down past file => exact h.1.logOf_eq hX
  | up past s₀ s =>
    obtain ⟨base, rfl, hsound, _⟩ := h
    obtain ⟨w, hw, hholds⟩ := hsound.logged.holds
    rw [Sys.log, logFile, hw, logOf_holds hX hholds]

theorem Sys.At.legal {sys : Sys} (h : sys.At X config log) : Legal config log := by
  cases sys with
  | down past file => exact h.2.1
  | up past s₀ s =>
    obtain ⟨base, rfl, hsound, _⟩ := h
    exact hsound.logged.legal

theorem Reachable.atLog (hX : X.Lawful) (hC : X.Compact) {sys : Sys}
    (h : Reachable X Fault.Clean config sys) : sys.At X config (sys.log X) := by
  obtain ⟨recs, hat⟩ := Sys.at_steps hX hC h Sys.at_init
  rwa [hat.log_eq hX]

theorem Reachable.legal (hX : X.Lawful) (hC : X.Compact) {sys : Sys}
    (h : Reachable X Fault.Clean config sys) : Legal config (sys.log X) :=
  (h.atLog hX hC).legal

/-! ## Capacity -/

theorem startWal_error_io (hX : X.Lawful) (hC : X.Compact) (hlegal : Legal config log)
    {file file' : Option (List UInt8)} (hstores : Stores X file log) {env : BootEnv} {e : Error}
    (h : startWal X env config file = (.error e, file')) :
    config.validate = .error e ∨ e = .storage (.io "File too large") := by
  unfold startWal at h
  split at h
  · rename_i hvalid
    cases h
    exact Or.inl hvalid
  · right
    rcases recover_stores hX hC hlegal hstores env.recovery with
      ⟨rec, f, hrec, hrecovers, _⟩ | ⟨_, _, _, hrec, _⟩
    · obtain ⟨sems, hsems⟩ := reservePermitsForRecovered_ok env hrecovers.lists hrecovers.fits
      simp only [hrec, hsems] at h
      cases h
    · simp only [hrec] at h
      cases h
      rfl

/-- No queue is ever given more than it has room for.  In memory, also in the middle of an
operation and with clients acting at the same time, the live jobs of a queue, its available
permits and those in flight stay within its capacity.  On disk, every prefix of the log
describes live jobs that fit the configuration, so that no restart rejects it. -/
theorem no_overadmission (hX : X.Lawful) (hC : X.Compact) {sys : Sys}
    (h : Reachable X Fault.Clean config sys) :
    (∀ past s₀ s s', sys = .up past s₀ s → Steps X Fault.Clean s s' → ∀ q c,
      config.capacity q = some c →
        s'.store.liveIn q + s'.availableIn q + s'.inFlightIn q ≤ c) ∧
    (∀ p, p <+: sys.log X → Fits config (replayed p) ∧ ∀ (env : BootEnv) seq epoch, ∃ rec sems,
      finishRecovery env.recovery config (p.foldl ReplayState.replayRecord .new)
        (reconciliationOf env.recovery p) seq epoch = .ok rec ∧
      reservePermitsForRecovered env (newSemaphores config) rec = .ok sems) ∧
    ∀ past file env e file', sys = .down past file → startWal X env config file = (.error e, file') →
      config.validate = .error e ∨ e = .storage (.io "File too large") := by
  have hat := h.atLog hX hC
  refine ⟨?_, ?_, ?_⟩
  · rintro past s₀ s s' rfl hsteps q c hc
    obtain ⟨base, _, hsound, _⟩ := hat
    exact (hsound.steps hsteps).accounts.le_capacity q hc
  · intro p hp
    have hlegal := hat.legal.initialSegment hp
    refine ⟨hlegal.fits, fun env seq epoch => ?_⟩
    have hfits := (hlegal.recovered_all env.recovery).fits
    obtain ⟨rec, hok, hstore, hlists⟩ := finishRecovery_of_fits hlegal.nodup seq epoch hfits
    obtain ⟨sems, hsems⟩ := reservePermitsForRecovered_ok env hlists (by rwa [hstore])
    exact ⟨rec, sems, hok, hsems⟩
  · rintro past file env e file' rfl hstart
    obtain ⟨hstores, hlegal, _⟩ := hat
    exact startWal_error_io hX hC hlegal hstores hstart

theorem Reachable.run {P : Fault → Prop} {past : List Event} {s₀ s s' : Coordinator}
    (h : Reachable X P config (.up past s₀ s)) (hrun : Run X P config s s') :
    Reachable X P config (.up past s₀ s') := by
  induction hrun with
  | refl => exact h
  | tail _ hstep ih => exact ih.tail (.proc hstep)

theorem mailStart_reachable (P : Fault → Prop) :
    Reachable Postcard.crates P mailConfig (.up [] mailStart mailStart) :=
  .single (.boot (show startWal Postcard.crates mailBoot mailConfig none =
    (.ok mailStart, some headerBytes) from rfl))

theorem mailRestarted_reachable (P : Fault → Prop) (hP : P .none) :
    Reachable Postcard.crates P mailConfig
      (.up mailSubmitted.journal mailRestarted mailRestarted) := by
  have hup := (mailStart_reachable P).run
    ((Relation.ReflTransGen.single (mailAcquired_step P)).tail (mailSubmitted_step P hP))
  obtain ⟨file, hstart⟩ := startWal_mailRestarted
  exact (hup.tail .stop).tail (.boot hstart)

/-- After a restart the recovered job fills its queue of capacity 1. -/
theorem no_overadmission_restarted :
    mailRestarted.store.liveIn "mail" = 1 ∧
      mailRestarted.store.liveIn "mail" + mailRestarted.availableIn "mail" +
        mailRestarted.inFlightIn "mail" ≤ 1 ∧
      (∀ p, p <+: logOf Postcard.crates (some mailRestarted.logFile) →
        Fits mailConfig (replayed p)) ∧
      (logOf Postcard.crates (some mailRestarted.logFile)).length = 1 := by
  obtain ⟨hmemory, hdisk, _⟩ := no_overadmission Postcard.crates_lawful Postcard.crates_compact
    (mailRestarted_reachable Fault.Clean trivial)
  exact ⟨by decide +kernel, hmemory _ _ _ _ rfl .refl "mail" 1 rfl, fun p hp => (hdisk p hp).1,
    by decide +kernel⟩

/-! ## Leases -/

theorem doWorkerOutcome_stale {env : Env} {s : Coordinator} {id : JobId} {l : LeaseId}
    (h : ∀ lease, s.leases.get id = some lease → lease.leaseId ≠ l) (outcome : WorkerOutcome) :
    doWorkerOutcome X config env id l outcome s = .ok () s.staleOutcome := by
  have hrun : ∀ f : Coordinator → CoordM Unit, (get >>= f) s = f s s := fun _ => rfl
  rw [doWorkerOutcome, hrun]
  cases hget : s.leases.get id with
  | none => rfl
  | some lease =>
    simp only [if_pos (h lease hget)]
    rfl

/-- Leases are fenced, over all interleavings and restarts.  An outcome that is not for the
lease granted last for its job, or for one that has ended, only counts as stale; epochs rise
from grant to grant; and no two records in the log end the same lease. -/
theorem lease_fencing (hX : X.Lawful) (hC : X.Compact) {sys : Sys}
    (h : Reachable X Fault.Clean config sys) :
    (∀ past s₀ s, sys = .up past s₀ s → ∀ env id l outcome,
      exec X config env (.handle (.workerOutcome id l outcome)) s = .ok () s.staleOutcome ∨
        lastLease sys.acked id = some l ∧ l ∉ sys.ended) ∧
    (sys.acked.filterMap WalRecord.leasedEpoch).Pairwise (fun e e' => e.toNat < e'.toNat) ∧
    (outcomes (sys.log X)).Nodup := by
  have hat := h.atLog hX hC
  refine ⟨?_, ?_, hat.legal.fenced.nodup⟩
  · rintro past s₀ s rfl env id l outcome
    obtain ⟨base, _, hsound, _⟩ := hat
    by_cases hl : ∃ lease, s.leases.get id = some lease ∧ lease.leaseId = l
    · obtain ⟨lease, hget, rfl⟩ := hl
      refine Or.inr ⟨?_, ?_⟩
      · rw [Sys.acked, Sys.history, List.filterMap_append]
        exact hsound.placement.lastLease_eq _ hget
      · rw [Sys.ended, Sys.history, List.filterMap_append]
        exact hsound.leases.active id lease hget
    · exact Or.inl (doWorkerOutcome_stale (fun lease hget heq => hl ⟨lease, hget, heq⟩) outcome)
  · cases sys with
    | down past file =>
      obtain ⟨_, hlegal, hacked, _⟩ := hat
      exact hlegal.epochs_increasing.sublist (hacked.filterMap _)
    | up past s₀ s =>
      obtain ⟨base, _, hsound, hacked⟩ := hat
      refine hsound.logged.legal.epochs_increasing.sublist (List.Sublist.filterMap _ ?_)
      rw [Sys.acked, Sys.history, List.filterMap_append]
      exact hacked.append (List.Sublist.refl _)

/-- While the job runs under lease 1, an outcome for lease 7 is stale. -/
theorem lease_fencing_leased :
    (exec Postcard.crates mailConfig (mailEnv ⟨2⟩ .none)
        (.handle (.workerOutcome ⟨1⟩ ⟨7⟩ .success)) mailLeased = .ok () mailLeased.staleOutcome) ∧
      lastLease (Sys.acked (.up [] mailStart mailLeased)) ⟨1⟩ = some ⟨1⟩ ∧
      (outcomes (logOf Postcard.crates (some mailLeased.logFile))).Nodup := by
  have hlast : lastLease (Sys.acked (.up [] mailStart mailLeased)) ⟨1⟩ = some ⟨1⟩ := by
    decide +kernel
  obtain ⟨hstale, _, hnodup⟩ := lease_fencing Postcard.crates_lawful Postcard.crates_compact
    ((mailStart_reachable Fault.Clean).run (mailLeased_run Fault.Clean trivial))
  refine ⟨?_, hlast, hnodup⟩
  rcases hstale _ _ _ rfl (mailEnv ⟨2⟩ .none) ⟨1⟩ ⟨7⟩ .success with h | ⟨h, _⟩
  · exact h
  · rw [hlast] at h
    exact absurd h (by decide)

end DurableQueue
