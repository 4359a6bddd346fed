import Mathlib.Order.Iterate
import Mathlib.Tactic

/-! Repeating a step under a cap.  The loop is left as soon as a step reaches the cap; for a
step that never goes down it computes the capped iterate. -/

namespace DurableQueue

namespace Capped

variable {α : Type} [LinearOrder α] {f : α → α} {cap x : α} {n : Nat}

def iterate (f : α → α) (cap : α) : Nat → α → α
  | 0, x => min x cap
  | n + 1, x => if cap ≤ f x then cap else iterate f cap n (f x)

theorem iterate_eq (hf : id ≤ f) (n : Nat) (x : α) : iterate f cap n x = min (f^[n] x) cap := by
  induction n generalizing x with
  | zero => rfl
  | succ n ih =>
    rw [iterate, Function.iterate_succ_apply]
    split
    · rename_i hcap
      -- the steps that are left out do not go below the cap again
      have hrest : f x ≤ f^[n] (f x) := Function.id_le_iterate_of_id_le hf n (f x)
      exact (min_eq_right (hcap.trans hrest)).symm
    · exact ih (f x)

theorem iterate_le (hf : id ≤ f) : iterate f cap n x ≤ cap := by
  rw [iterate_eq hf]
  exact min_le_right _ _

theorem le_iterate (hf : id ≤ f) (hx : x ≤ cap) : x ≤ iterate f cap n x := by
  rw [iterate_eq hf]
  exact le_min (Function.id_le_iterate_of_id_le hf n x) hx

theorem iterate_monotone (hf : id ≤ f) (x : α) : Monotone fun n => iterate f cap n x := by
  intro n m hnm
  simp only [iterate_eq hf]
  exact min_le_min_right cap (Function.monotone_iterate_of_id_le hf hnm x)

end Capped

end DurableQueue
