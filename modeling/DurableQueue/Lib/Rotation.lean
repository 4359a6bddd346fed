import Mathlib.Tactic

/-! Going round a ring of `n` positions: a cursor comes to them one after the other, and a
search serves the first busy position it comes to.  No busy position is passed over, so
each comes closer with every search until it is served. -/

namespace DurableQueue

namespace Rotation

variable {n c c' i k served : Nat} {busy : Nat → Prop}

def distance (n c i : Nat) : Nat := (i + (n - c)) % n

theorem distance_lt (hi : i < n) : distance n c i < n :=
  Nat.mod_lt _ (Nat.zero_lt_of_lt hi)

theorem add_distance (hc : c < n) (hi : i < n) : (c + distance n c i) % n = i := by
  rw [distance, Nat.add_mod_mod, show c + (i + (n - c)) = i + n by omega, Nat.add_mod_right,
    Nat.mod_eq_of_lt hi]

theorem distance_add (hc : c < n) (hi : i < n) (hk : k ≤ distance n c i) :
    distance n ((c + k) % n) i + k = distance n c i := by
  have hn : 0 < n := Nat.zero_lt_of_lt hi
  have hlt := distance_lt (c := c) hi
  have hmove : distance n ((c + k) % n) i = (distance n c i - k) % n := by
    have hcursor : (c + k) % n < n := Nat.mod_lt _ hn
    -- both sides are what takes the moved cursor to `i`
    have hleft := add_distance hcursor hi
    have hright : ((c + k) % n + (distance n c i - k)) % n = i := by
      rw [Nat.mod_add_mod, show c + k + (distance n c i - k) = c + distance n c i by omega,
        add_distance hc hi]
    have hmod : distance n ((c + k) % n) i ≡ distance n c i - k [MOD n] :=
      Nat.ModEq.add_left_cancel' _ (hleft.trans hright.symm)
    rwa [Nat.ModEq, Nat.mod_eq_of_lt (distance_lt hi)] at hmod
  rw [hmove, Nat.mod_eq_of_lt (by omega)]
  omega

structure Turn (n : Nat) (busy : Nat → Prop) (c served c' : Nat) : Prop where
  reaches : ∃ k < n, (∀ j < k, ¬busy ((c + j) % n)) ∧ served = (c + k) % n ∧
    c' = (c + k + 1) % n

theorem Turn.distance_lt (h : Turn n busy c served c') (hc : c < n) (hi : i < n)
    (hbusy : busy i) (hne : served ≠ i) : distance n c' i < distance n c i := by
  obtain ⟨k, _, hpassed, rfl, rfl⟩ := h.reaches
  have hk : k < distance n c i := by
    by_contra hle
    rcases Nat.lt_or_eq_of_le (Nat.not_lt.mp hle) with hlt | heq
    · exact hpassed _ hlt (by rwa [add_distance hc hi])
    · exact hne (by rw [← heq, add_distance hc hi])
  have hcloser : distance n ((c + k + 1) % n) i + (k + 1) = distance n c i :=
    distance_add hc hi hk
  omega

theorem idle_of_full_round (hc : c < n) (h : ∀ j < n, ¬busy ((c + j) % n)) (hi : i < n) :
    ¬busy i := by
  have hidle := h _ (Rotation.distance_lt (c := c) hi)
  rwa [add_distance hc hi] at hidle

end Rotation

end DurableQueue
