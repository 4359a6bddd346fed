import Mathlib.Tactic

/-! Integers of fixed width: values that fit, and the two's-complement values of those that
do not. -/

namespace DurableQueue

namespace Word

def fits (w n : Nat) : Option Nat := if n < 2 ^ w then some n else none

@[simp] theorem fits_eq {w n : Nat} (h : n < 2 ^ w) : fits w n = some n := if_pos h

variable {n : Int} {m : Nat}

theorem bmod_eq_self (hlow : -m ≤ n) (hhigh : n < m) : n.bmod (2 * m) = n := by
  apply Int.bmod_eq_of_le <;> omega

/-- Wrapping and saturating at the largest value agree below it, and by accident where the
wrapped value happens to be the largest. -/
theorem bmod_eq_min_iff (hm : 0 < m) (h : 0 ≤ n) :
    n.bmod (2 * m) = min n (m - 1) ↔ n < m ∨ n % (2 * m : Nat) = m - 1 := by
  by_cases hn : n < m
  · simp only [bmod_eq_self (by omega) hn, hn, true_or, iff_true]
    omega
  · simp only [hn, false_or, min_eq_right (show (m : Int) - 1 ≤ n by omega)]
    rw [Int.bmod_def]
    split
    · rfl
    · rename_i hhalf
      have hlt : n % (2 * m : Nat) < (2 * m : Nat) := Int.emod_lt_of_pos n (by omega)
      generalize n % (2 * m : Nat) = r at hhalf hlt ⊢
      omega

theorem max_bmod_zero_iff (hlow : -(2 * m) < n) (hhigh : n < m) :
    max (n.bmod (2 * m)) 0 = max n 0 ↔ -m ≤ n := by
  by_cases hn : -m ≤ n
  · simp [bmod_eq_self hn hhigh, hn]
  · have hwrap : n.bmod (2 * m) = n + 2 * m := by
      rw [← Int.add_bmod_right]
      exact bmod_eq_self (by omega) (by omega)
    rw [hwrap]
    omega

theorem toInt_max_zero (a : Int64) : (max a 0).toInt = max a.toInt 0 := by
  change (if a ≤ 0 then 0 else a).toInt = max a.toInt 0
  split
  · rename_i hle
    exact (max_eq_right (Int64.le_iff_toInt_le.mp hle)).symm
  · rename_i hnle
    have hlt : 0 < a.toInt := not_le.mp fun hle => hnle (Int64.le_iff_toInt_le.mpr hle)
    exact (max_eq_left hlt.le).symm

theorem toNat_toUInt64_max_zero (a : Int64) :
    (max a 0).toUInt64.toNat = (max a.toInt 0).toNat := by
  have hnonneg : 0 ≤ max a 0 := by
    rw [Int64.le_iff_toInt_le, toInt_max_zero]
    exact le_max_right _ _
  rw [Int64.toNat_toUInt64_of_le hnonneg, Int64.toNatClampNeg, toInt_max_zero]

end Word

end DurableQueue
