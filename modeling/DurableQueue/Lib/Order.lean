import Mathlib.Data.List.FinRange

/-! Iteration orders.  A hash map yields its entries in an order that no program may rely
on; a program that iterates over one is run under an arbitrary rearrangement. -/

namespace DurableQueue

/-- One way of arranging lists: a permutation of the positions, for every length. -/
structure IterOrder where
  shuffle : ∀ n, Equiv.Perm (Fin n)

namespace IterOrder

def asIs : IterOrder := ⟨fun _ => Equiv.refl _⟩

variable (order : IterOrder) {α : Type}

def arrange (l : List α) : List α := List.ofFn (l.get ∘ order.shuffle l.length)

theorem arrange_perm (l : List α) : (order.arrange l).Perm l := by
  have h := Equiv.Perm.ofFn_comp_perm (order.shuffle l.length) l.get
  rwa [List.ofFn_get] at h

@[simp] theorem mem_arrange {l : List α} {a : α} : a ∈ order.arrange l ↔ a ∈ l :=
  (order.arrange_perm l).mem_iff

theorem nodup_map_arrange {β : Type} {l : List α} {f : α → β} :
    ((order.arrange l).map f).Nodup ↔ (l.map f).Nodup :=
  ((order.arrange_perm l).map f).nodup_iff

end IterOrder

theorem map_filterMap_sublist {α β κ : Type} {f : α → Option β} {key : α → κ} {key' : β → κ}
    (h : ∀ a b, f a = some b → key' b = key a) (l : List α) :
    ((l.filterMap f).map key').Sublist (l.map key) := by
  induction l with
  | nil => exact List.Sublist.slnil
  | cons a l ih =>
    rw [List.map_cons]
    cases hf : f a with
    | none =>
      rw [List.filterMap_cons_none hf]
      exact ih.cons _
    | some b =>
      rw [List.filterMap_cons_some hf, List.map_cons, h a b hf]
      exact ih.cons_cons _

theorem eq_filter_of_sublist {α : Type} {l l' : List α} {p : α → Bool} (h : l.Sublist l')
    (hnodup : l'.Nodup) (hmem : ∀ a, a ∈ l ↔ a ∈ l' ∧ p a) : l = l'.filter p := by
  have hsub : l.Sublist (l'.filter p) := by
    have hfilter : l.filter p = l := List.filter_eq_self.mpr fun a ha => ((hmem a).mp ha).2
    rw [← hfilter]
    exact h.filter p
  refine hsub.eq_of_length (List.Perm.length_eq ?_)
  refine (List.perm_ext_iff_of_nodup (hnodup.sublist h) (hnodup.filter p)).mpr fun a => ?_
  rw [List.mem_filter]
  exact hmem a

end DurableQueue
