import DurableQueue.Defs.SystemLaws

/-! The byte positions at which a crash can cut the file, and what the next start makes of
what is left. -/

namespace DurableQueue

open WriterThread Coordinator Bytes

variable {X : Crates} {config : RuntimeConfig} {log : List WalRecord}

theorem recover_short {file : List UInt8} (hne : file ≠ []) (hlt : file.length < headerSize)
    (env : RecoverEnv) :
    recover X env config (some file) = (.error .invalidWalHeader, file) := by
  cases file with
  | nil => exact absurd rfl hne
  | cons b bs =>
    have hscan : scanWal X (b :: bs) = .error .invalidWalHeader := by
      rw [scanWal, if_neg (by simp), if_pos hlt]
    simp only [recover, hscan]

def Sys.disk : Sys → Option (List UInt8)
  | .down _ file => file
  | .up _ _ s => some s.logFile

theorem Sys.At.stores {sys : Sys} (h : sys.At X config log) : Stores X sys.disk log := by
  cases sys with
  | down past file => exact h.1
  | up past s₀ s =>
    obtain ⟨base, rfl, hsound, _⟩ := h
    obtain ⟨w, hw, hholds⟩ := hsound.logged.holds
    have hdisk : s.logFile = w.file := by rw [logFile, hw]
    rw [disk, hdisk]
    exact .holds hholds

/-- Cut the file of any reachable state at any byte: the next recovery succeeds exactly if
nothing is left of the file or its header is whole. -/
theorem recover_cut_ok_iff (hX : X.Lawful) (hC : X.Compact) {sys : Sys}
    (h : Reachable X Fault.Clean config sys) {file p : List UInt8} (hfile : sys.disk = some file)
    (hp : p <+: file) (env : RecoverEnv)
    (hio : ∀ msg, (recover X env config (some p)).1 ≠ .error (.io msg)) :
    (∃ rec, (recover X env config (some p)).1 = .ok rec) ↔ p = [] ∨ headerSize ≤ p.length := by
  have hlegal := h.legal hX hC
  have hstores := (h.atLog hX hC).stores
  rw [hfile] at hstores
  constructor
  · rintro ⟨rec, hrec⟩
    by_contra hcut
    rw [not_or, Nat.not_le] at hcut
    rw [recover_short hcut.1 hcut.2] at hrec
    cases hrec
  · rintro (rfl | hlen)
    · exact ⟨_, rfl⟩
    · generalize sys.log X = log at hlegal hstores
      cases hstores with
      | empty =>
        rw [List.prefix_nil.mp hp] at hlen
        cases hlen
      | holds hholds =>
        rw [← List.nil_append log] at hholds
        obtain ⟨n, torn', seq, hcut⟩ := hholds.cut hp hlen
        rcases recover_holds hX hC (hlegal.initialSegment (List.take_prefix n log)) hcut env with
          ⟨rec, file', hrec, _⟩ | ⟨_, _, _, hrec, _⟩
        · exact ⟨rec, by rw [hrec]⟩
        · exact absurd (by rw [hrec]) (hio "File too large")

/-- A crash in the middle of the first record of a file. -/
theorem recover_cut_ok_submitted :
    ∃ rec, (recover Postcard.crates mailBoot.recovery mailConfig
      (some (mailSubmitted.logFile.take 20))).1 = .ok rec := by
  have hok : (recover Postcard.crates mailBoot.recovery mailConfig
      (some (mailSubmitted.logFile.take 20))).1.isOk = true := by decide +kernel
  have hreach := (mailStart_reachable Fault.Clean).run
    ((Relation.ReflTransGen.single (mailAcquired_step Fault.Clean)).tail
      (mailSubmitted_step Fault.Clean trivial))
  refine (recover_cut_ok_iff Postcard.crates_lawful Postcard.crates_compact hreach rfl
    (List.take_prefix 20 _) mailBoot.recovery fun msg h => ?_).mpr (Or.inr (by decide +kernel))
  rw [h] at hok
  cases hok

/-- The first start dies after three bytes of the header, and no later start succeeds. -/
theorem torn_header_bricks :
    Reachable Postcard.crates (· = .none) mailConfig (.up [] mailStart mailStart) ∧
      (Sys.up [] mailStart mailStart).disk = some headerBytes ∧
      headerBytes.take 3 <+: headerBytes ∧
      recover Postcard.crates mailBoot.recovery mailConfig (some (headerBytes.take 3)) =
        (.error .invalidWalHeader, headerBytes.take 3) :=
  ⟨mailStart_reachable _, rfl, List.take_prefix 3 _, recover_short (by decide) (by decide) _⟩

end DurableQueue
