import DurableQueue.Lib.Capped
import DurableQueue.Lib.Word
import DurableQueue.Defs.Config

/-! The retry backoff in exact nanoseconds, and the jitter with its arithmetic checked. -/

namespace DurableQueue

namespace Rng

/-- `random_range(0..=hi)` with its check that the range is not empty. -/
def randomRange? (rng : Rng) (hi : UInt64) : Option UInt64 :=
  if 0 ≤ hi then some (rng.randomRange hi) else none

@[simp] theorem randomRange?_eq (rng : Rng) (hi : UInt64) :
    rng.randomRange? hi = some (rng.randomRange hi) := if_pos UInt64.zero_le

theorem toNat_randomRange_le (rng : Rng) (n : Nat) :
    (rng.randomRange (UInt64.ofNat n)).toNat ≤ n := by
  have hle := UInt64.le_iff_toNat_le.mp (rng.le (UInt64.ofNat n))
  exact hle.trans (UInt64.toNat_ofNat' ▸ Nat.mod_le _ _)

theorem scaled_le (rng : Rng) (n : Nat) :
    (rng.randomRange (UInt64.ofNat u64Max)).toNat * (n / u64Max) ≤ n :=
  calc
    _ ≤ u64Max * (n / u64Max) := Nat.mul_le_mul_right _ (rng.toNat_randomRange_le u64Max)
    _ ≤ n := Nat.mul_div_le n u64Max

end Rng

namespace RetryConfig

variable {c : RetryConfig}

theorem validate_ok_iff :
    c.validate = .ok () ↔ 0 < c.baseDelay.asNanos ∧ c.baseDelay ≤ c.maxDelay := by
  simp only [validate, Duration.isZero, beq_iff_eq, Duration.le_def]
  split_ifs with hbase hmax hgt
  · simp [hbase]
  · simp [hmax, hbase]
  · simp [Nat.not_le.mpr hgt]
  · exact iff_of_true rfl ⟨Nat.pos_of_ne_zero hbase, Nat.not_lt.mp hgt⟩

/-! ## The cap -/

theorem backoff_eq_iterate (maxDelay : Duration) (n : Nat) (d : Duration) :
    backoff maxDelay n d = Capped.iterate (·.saturatingMul 2) maxDelay n d := by
  induction n generalizing d with
  | zero => exact Duration.min_eq d maxDelay
  | succ n ih => simp only [backoff, Capped.iterate, ge_iff_le, Duration.le_def, ih]

theorem capForAttempt_eq (c : RetryConfig) (attempt : UInt32) :
    c.capForAttempt attempt = Capped.iterate (·.saturatingMul 2) c.maxDelay
      (min (attempt.toNat - 1) 63) c.baseDelay :=
  backoff_eq_iterate _ _ _

/-- The doubling never saturates below `max_delay`: the cap is a power of two times
`base_delay`, held at `max_delay`. -/
theorem asNanos_capForAttempt (c : RetryConfig) (attempt : UInt32) :
    (c.capForAttempt attempt).asNanos =
      min (c.baseDelay.asNanos * 2 ^ min (attempt.toNat - 1) 63) c.maxDelay.asNanos := by
  rw [capForAttempt_eq, Capped.iterate_eq (Duration.id_le_saturatingMul Nat.two_pos),
    Duration.asNanos_min, Duration.asNanos_iterate_saturatingMul Nat.two_pos, min_assoc,
    min_eq_right c.maxDelay.le_max]

theorem capForAttempt_mono (c : RetryConfig) {a b : UInt32} (h : a ≤ b) :
    c.capForAttempt a ≤ c.capForAttempt b := by
  rw [capForAttempt_eq, capForAttempt_eq]
  apply Capped.iterate_monotone (Duration.id_le_saturatingMul Nat.two_pos)
  have hle := UInt32.le_iff_toNat_le.mp h
  omega

theorem capForAttempt_le (c : RetryConfig) (attempt : UInt32) :
    c.capForAttempt attempt ≤ c.maxDelay := by
  rw [capForAttempt_eq]
  exact Capped.iterate_le (Duration.id_le_saturatingMul Nat.two_pos)

theorem le_capForAttempt (h : c.baseDelay ≤ c.maxDelay) (attempt : UInt32) :
    c.baseDelay ≤ c.capForAttempt attempt := by
  rw [capForAttempt_eq]
  exact Capped.le_iterate (Duration.id_le_saturatingMul Nat.two_pos) h

/-! ## Jitter -/

theorem asNanos_fromNanos_min (n : Nat) :
    (Duration.fromNanos (UInt64.ofNat (min n u64Max))).asNanos = min n u64Max := by
  rw [Duration.asNanos_fromNanos, UInt64.toNat_ofNat']
  exact Nat.mod_eq_of_lt (by unfold u64Max; omega)

theorem delayWithRng_le (c : RetryConfig) (attempt : UInt32) (rng : Rng) :
    c.delayWithRng attempt rng ≤ c.capForAttempt attempt := by
  unfold delayWithRng
  split
  · exact le_rfl
  · dsimp only
    split
    · exact Nat.zero_le _
    · rw [Duration.le_def, asNanos_fromNanos_min]
      split
      · exact (min_le_left _ _).trans (rng.toNat_randomRange_le _)
      · exact (min_le_left _ _).trans (min_le_right _ _)

def jitteredNanos? (capNanos : Nat) (rng : Rng) : Option Nat :=
  if capNanos ≤ u64Max then do
    let hi ← Word.fits 64 capNanos
    let sample ← rng.randomRange? (UInt64.ofNat hi)
    return sample.toNat
  else do
    let scale := capNanos / u64Max
    let base ← rng.randomRange? (UInt64.ofNat u64Max)
    let scaled ← Word.fits 128 (base.toNat * scale)
    return min scaled capNanos

/-- `delay_with_rng` with its `u128` arithmetic, its casts and its sampling ranges checked. -/
def delayWithRng? (c : RetryConfig) (attempt : UInt32) (rng : Rng) : Option Duration :=
  let cap := c.capForAttempt attempt
  match c.jitter with
  | .none => some cap
  | .full => do
    let capNanos ← Word.fits 128 cap.asNanos
    if capNanos = 0 then return Duration.zero
    else
      let jitteredNanos ← jitteredNanos? capNanos rng
      let nanos ← Word.fits 64 (min jitteredNanos u64Max)
      return Duration.fromNanos (UInt64.ofNat nanos)

theorem jitteredNanos?_eq {capNanos : Nat} (h : capNanos < 2 ^ 128) (rng : Rng) :
    jitteredNanos? capNanos rng = some (if capNanos ≤ u64Max then
      (rng.randomRange (UInt64.ofNat capNanos)).toNat
    else min ((rng.randomRange (UInt64.ofNat u64Max)).toNat * (capNanos / u64Max)) capNanos) := by
  unfold jitteredNanos?
  split
  · rename_i hsmall
    have hcast : capNanos < 2 ^ 64 := Nat.lt_of_le_of_lt hsmall (by decide)
    simp [Word.fits_eq hcast]
  · have hscaled := (rng.scaled_le capNanos).trans_lt h
    simp [Word.fits_eq hscaled]

theorem delayWithRng?_eq (c : RetryConfig) (attempt : UInt32) (rng : Rng) :
    c.delayWithRng? attempt rng = some (c.delayWithRng attempt rng) := by
  have hcap : (c.capForAttempt attempt).asNanos < 2 ^ 128 :=
    (c.capForAttempt attempt).le_max.trans_lt (by decide)
  have hcast (n : Nat) : min n u64Max < 2 ^ 64 := (min_le_right _ _).trans_lt (by decide)
  unfold delayWithRng? delayWithRng
  cases c.jitter with
  | none => rfl
  | full =>
    simp only [Word.fits_eq hcap, jitteredNanos?_eq hcap, Word.fits_eq (hcast _),
      Option.bind_eq_bind, Option.bind_some]
    split <;> rfl

/-! ## The backoff of a valid configuration -/

/-- The cap is exact, grows with the attempts and lies between the two delays; no sample
takes the delay above it, and computing the delay overflows nowhere. -/
theorem backoff_exact (h : c.validate = .ok ()) :
    (∀ attempt : UInt32, (c.capForAttempt attempt).asNanos =
      min (c.baseDelay.asNanos * 2 ^ min (max attempt.toNat 1 - 1) 63) c.maxDelay.asNanos) ∧
    (∀ a b : UInt32, a ≤ b → c.capForAttempt a ≤ c.capForAttempt b) ∧
    (∀ attempt, c.baseDelay ≤ c.capForAttempt attempt ∧ c.capForAttempt attempt ≤ c.maxDelay) ∧
    ∀ attempt rng, c.delayWithRng? attempt rng = some (c.delayWithRng attempt rng) ∧
      c.delayWithRng attempt rng ≤ c.capForAttempt attempt := by
  obtain ⟨-, hdelays⟩ := validate_ok_iff.mp h
  refine ⟨?_, fun _ _ => c.capForAttempt_mono, ?_, ?_⟩
  · intro attempt
    rw [asNanos_capForAttempt, show max attempt.toNat 1 - 1 = attempt.toNat - 1 by omega]
  · exact fun attempt => ⟨le_capForAttempt hdelays attempt, c.capForAttempt_le attempt⟩
  · exact fun attempt rng => ⟨c.delayWithRng?_eq attempt rng, c.delayWithRng_le attempt rng⟩

def longest : RetryConfig := ⟨.fromSecs 1, .saturating Duration.maxNanos, .full⟩

/-- Far beyond 64 bits of nanoseconds the cap is still exact, and the largest sample below it. -/
theorem backoff_exact_longest :
    longest.validate = .ok () ∧ u64Max < (longest.capForAttempt 64).asNanos ∧
    (longest.capForAttempt 64).asNanos = 10 ^ 9 * 2 ^ 63 ∧
    longest.delayWithRng 64 ⟨fun hi => hi, fun _ => UInt64.le_refl _⟩ ≤
      longest.capForAttempt 64 := by
  have hvalid : longest.validate = .ok () := by decide
  obtain ⟨hcap, -, -, hdelay⟩ := backoff_exact hvalid
  have hexact : (longest.capForAttempt 64).asNanos = 10 ^ 9 * 2 ^ 63 := (hcap 64).trans (by decide)
  exact ⟨hvalid, hexact ▸ by decide, hexact, (hdelay 64 _).2⟩

end RetryConfig

end DurableQueue
