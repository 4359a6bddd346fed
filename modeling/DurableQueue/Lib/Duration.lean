import Mathlib.Tactic

/-! The standard library's `Duration` (whole nanoseconds, at most `u64::MAX` seconds and
999 999 999 nanoseconds) and monotonic instants. -/

namespace DurableQueue

def Duration.maxNanos : Nat := 2 ^ 64 * 10 ^ 9 - 1

structure Duration where
  asNanos : Nat
  le_max : asNanos ≤ Duration.maxNanos
  deriving DecidableEq

namespace Duration

@[ext] theorem ext {a b : Duration} (h : a.asNanos = b.asNanos) : a = b := by
  cases a
  cases b
  simpa using h

/-- The duration closest to `n` nanoseconds: every saturating operation ends in this. -/
def saturating (n : Nat) : Duration := ⟨min n maxNanos, Nat.min_le_right _ _⟩

def zero : Duration := saturating 0

def fromNanos (n : UInt64) : Duration := saturating n.toNat

def fromMillis (n : UInt64) : Duration := saturating (n.toNat * 10 ^ 6)

def fromSecs (n : UInt64) : Duration := saturating (n.toNat * 10 ^ 9)

def isZero (d : Duration) : Bool := d.asNanos == 0

def asMillis (d : Duration) : Nat := d.asNanos / 10 ^ 6

def saturatingMul (d : Duration) (k : Nat) : Duration := saturating (d.asNanos * k)

def min (a b : Duration) : Duration := if a.asNanos ≤ b.asNanos then a else b

/-! ## Order and exact nanoseconds -/

instance : LinearOrder Duration := LinearOrder.lift' asNanos fun _ _ => ext

theorem le_def {a b : Duration} : a ≤ b ↔ a.asNanos ≤ b.asNanos := Iff.rfl

theorem min_eq (a b : Duration) : a.min b = Min.min a b := rfl

@[simp] theorem asNanos_min (a b : Duration) :
    (Min.min a b).asNanos = Min.min a.asNanos b.asNanos :=
  Monotone.map_min fun _ _ h => h

@[simp] theorem asNanos_saturating (n : Nat) : (saturating n).asNanos = Min.min n maxNanos := rfl

@[simp] theorem asNanos_saturatingMul (d : Duration) (k : Nat) :
    (d.saturatingMul k).asNanos = Min.min (d.asNanos * k) maxNanos := rfl

theorem asNanos_fromNanos (n : UInt64) : (fromNanos n).asNanos = n.toNat := by
  have hlt := n.toNat_lt
  rw [fromNanos, asNanos_saturating, maxNanos]
  omega

theorem asNanos_fromMillis (n : UInt64) : (fromMillis n).asNanos = n.toNat * 10 ^ 6 := by
  have hlt := n.toNat_lt
  rw [fromMillis, asNanos_saturating, maxNanos]
  omega

section

variable {k : Nat} (hk : 0 < k)

include hk

theorem id_le_saturatingMul : id ≤ fun d : Duration => d.saturatingMul k := by
  intro d
  rw [id, le_def, asNanos_saturatingMul]
  exact le_min (Nat.le_mul_of_pos_right _ hk) d.le_max

/-- Saturating along the way is saturating once at the end. -/
theorem asNanos_iterate_saturatingMul (n : Nat) (d : Duration) :
    ((fun d : Duration => d.saturatingMul k)^[n] d).asNanos =
      Min.min (d.asNanos * k ^ n) maxNanos := by
  induction n with
  | zero => simp [d.le_max]
  | succ n ih =>
    rw [Function.iterate_succ_apply', asNanos_saturatingMul, ih, pow_succ, ← Nat.mul_assoc]
    rcases Nat.le_total (d.asNanos * k ^ n) maxNanos with hle | hge
    · rw [min_eq_left hle]
    · -- saturated before: both sides are the largest duration
      have hmax : maxNanos ≤ maxNanos * k := Nat.le_mul_of_pos_right _ hk
      rw [min_eq_right hge, min_eq_right hmax,
        min_eq_right (hmax.trans (Nat.mul_le_mul_right k hge))]

end

end Duration

/-- A reading of the monotonic clock, in nanoseconds from some fixed origin. -/
structure Instant where
  nanos : Nat
  deriving DecidableEq

namespace Instant

/-- The whole seconds of an instant are an `i64`. -/
def maxNanos : Nat := 2 ^ 63 * 10 ^ 9 - 1

def add (t : Instant) (d : Duration) : Instant := ⟨t.nanos + d.asNanos⟩

def Fits (t : Instant) (d : Duration) : Prop := (t.add d).nanos ≤ maxNanos

instance (t : Instant) (d : Duration) : Decidable (t.Fits d) := inferInstanceAs (Decidable (_ ≤ _))

/-- The operator `+` of the standard library panics where this is `none`. -/
def checkedAdd (t : Instant) (d : Duration) : Option Instant :=
  if t.Fits d then some (t.add d) else none

end Instant

end DurableQueue
