import Mathlib.Tactic

/-! A list of slots, of which a step writes one, seen through what can be read off each slot. -/

namespace DurableQueue

namespace Slots

variable {α β : Type} {slots : List α} {k : Nat} {a b : α} {f : α → Option β}

theorem filterMap_set_perm (h : slots[k]? = some a) :
    ((slots.set k b).filterMap f ++ (f a).toList).Perm (slots.filterMap f ++ (f b).toList) := by
  have hcons : ∀ (c : α) (l : List α),
      ((c :: l).filterMap f).Perm ((f c).toList ++ l.filterMap f) := by
    intro c l
    rw [List.filterMap_cons]
    cases f c <;> rfl
  induction slots generalizing k with
  | nil => cases h
  | cons c rest ih =>
    cases k with
    | zero =>
      cases h
      calc (b :: rest).filterMap f ++ (f a).toList
        _ |>.Perm ((f b).toList ++ rest.filterMap f ++ (f a).toList) := (hcons b rest).append_right _
        _ |>.Perm ((f a).toList ++ rest.filterMap f ++ (f b).toList) := by
          refine List.perm_append_comm.trans ?_
          rw [List.append_assoc]
          exact List.Perm.append_left _ List.perm_append_comm
        _ |>.Perm ((a :: rest).filterMap f ++ (f b).toList) := (hcons a rest).symm.append_right _
    | succ k =>
      calc (c :: rest.set k b).filterMap f ++ (f a).toList
        _ |>.Perm ((f c).toList ++ (rest.set k b).filterMap f ++ (f a).toList) :=
          (hcons c _).append_right _
        _ |>.Perm ((f c).toList ++ (rest.filterMap f ++ (f b).toList)) := by
          rw [List.append_assoc]
          exact List.Perm.append_left _ (ih h)
        _ |>.Perm ((c :: rest).filterMap f ++ (f b).toList) := by
          rw [← List.append_assoc]
          exact (hcons c rest).symm.append_right _

theorem filterMap_set_same (h : slots[k]? = some a) (hsame : f b = f a) :
    ((slots.set k b).filterMap f).Perm (slots.filterMap f) := by
  have hperm := filterMap_set_perm (f := f) (b := b) h
  rw [hsame] at hperm
  exact (List.perm_append_right_iff _).mp hperm

theorem filterMap_set_add {x : β} (h : slots[k]? = some a) (ha : f a = none) (hb : f b = some x) :
    ((slots.set k b).filterMap f).Perm (slots.filterMap f ++ [x]) := by
  have hperm := filterMap_set_perm (f := f) (b := b) h
  rwa [ha, hb, Option.toList_none, List.append_nil] at hperm

theorem filterMap_set_drop {x : β} (h : slots[k]? = some a) (ha : f a = some x)
    (hb : f b = none) : (slots.filterMap f).Perm ((slots.set k b).filterMap f ++ [x]) := by
  have hperm := filterMap_set_perm (f := f) (b := b) h
  rw [ha, hb, Option.toList_none, List.append_nil] at hperm
  exact hperm.symm

theorem index_eq_of_nodup {i j : Nat} {x : β} (h : (slots.filterMap f).Nodup)
    (hi : slots[i]? = some a) (hj : slots[j]? = some b) (ha : f a = some x) (hb : f b = some x) :
    i = j := by
  have hpairs := List.pairwise_iff_getElem.mp (List.pairwise_filterMap.mp h)
  obtain ⟨hilt, rfl⟩ := List.getElem?_eq_some_iff.mp hi
  obtain ⟨hjlt, rfl⟩ := List.getElem?_eq_some_iff.mp hj
  rcases Nat.lt_trichotomy i j with hlt | heq | hlt
  · exact absurd rfl (hpairs i j hilt hjlt hlt x ha x hb)
  · exact heq
  · exact absurd rfl (hpairs j i hjlt hilt hlt x hb x ha)

theorem eq_of_nodup {x : β} (h : (slots.filterMap f).Nodup) (ha : a ∈ slots) (hb : b ∈ slots)
    (hfa : f a = some x) (hfb : f b = some x) : a = b := by
  obtain ⟨i, hi⟩ := List.mem_iff_getElem?.mp ha
  obtain ⟨j, hj⟩ := List.mem_iff_getElem?.mp hb
  obtain rfl := index_eq_of_nodup h hi hj hfa hfb
  rw [hi] at hj
  exact Option.some.inj hj

theorem filterMap_sublist {g : α → Option β} (h : ∀ a b, f a = some b → g a = some b)
    (slots : List α) : (slots.filterMap f).Sublist (slots.filterMap g) := by
  induction slots with
  | nil => exact .slnil
  | cons a rest ih =>
    cases hf : f a with
    | none =>
      rw [List.filterMap_cons_none hf]
      refine ih.trans ?_
      rw [List.filterMap_cons]
      cases g a with
      | none => exact .refl _
      | some b => exact List.sublist_cons_self _ _
    | some b =>
      rw [List.filterMap_cons_some hf, List.filterMap_cons_some (h a b hf)]
      exact ih.cons_cons b

end Slots

end DurableQueue
