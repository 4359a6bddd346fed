import Mathlib.Logic.Relation
import Mathlib.Tactic

/-! Runs of a labelled transition system. -/

namespace DurableQueue

variable {σ ℓ : Type} {R : σ → ℓ → σ → Prop}

/-- From `s` the system has taken steps with these labels, in this order. -/
inductive Trace (R : σ → ℓ → σ → Prop) (s : σ) : List ℓ → σ → Prop
  | nil : Trace R s [] s
  | snoc {ls : List ℓ} {l : ℓ} {s₁ s₂ : σ} (h : Trace R s ls s₁) (hstep : R s₁ l s₂) :
      Trace R s (ls ++ [l]) s₂

namespace Trace

variable {s s' : σ} {ls : List ℓ}

theorem invariant {I : σ → Prop} (hstep : ∀ s l s', I s → R s l s' → I s')
    (h : Trace R s ls s') (hs : I s) : I s' := by
  induction h with
  | nil => exact hs
  | snoc _ hlast ih => exact hstep _ _ _ ih hlast

theorem restrict {p : ℓ → Prop} (h : Trace R s ls s') (hp : ∀ l ∈ ls, p l) :
    Trace (fun s l s' => R s l s' ∧ p l) s ls s' := by
  induction h with
  | nil => exact .nil
  | snoc _ hlast ih =>
    exact (ih fun l hl => hp l (List.mem_append_left _ hl)).snoc
      ⟨hlast, hp _ (List.mem_append_right _ (List.mem_singleton_self _))⟩

/-- How often a step of kind `p` is taken, by a potential.  No step raises the potential.  A
step of kind `p` leaves a debt behind; a debt prevents further such steps and is either kept
or paid for with potential. -/
theorem countP_le {p : ℓ → Bool} (h : Trace R s ls s') (I Owes : σ → Prop) (μ : σ → Nat)
    (hinv : ∀ s l s', I s → R s l s' → I s')
    (hle : ∀ s l s', I s → R s l s' → μ s' ≤ μ s)
    (hincur : ∀ s l s', I s → R s l s' → p l → ¬Owes s ∧ Owes s')
    (hpay : ∀ s l s', I s → R s l s' → Owes s → μ s' < μ s ∨ Owes s')
    (hs : I s) : ls.countP p ≤ μ s + 1 := by
  -- the invariant: a debt is the only thing that the potential has not paid for
  have hpaid : ls.countP p + μ s' ≤ μ s ∨ ls.countP p + μ s' ≤ μ s + 1 ∧ Owes s' := by
    induction h with
    | nil => exact Or.inl (by simp)
    | @snoc ls l s₁ s₂ h hlast ih =>
      have h₁ := invariant hinv h hs
      have hle' := hle _ _ _ h₁ hlast
      rw [List.countP_append, List.countP_singleton]
      by_cases hp : p l
      · obtain ⟨hfree, howes⟩ := hincur _ _ _ h₁ hlast hp
        rw [if_pos hp]
        rcases ih with hle'' | ⟨_, howes'⟩
        · exact Or.inr ⟨by omega, howes⟩
        · exact absurd howes' hfree
      · rw [if_neg hp]
        rcases ih with hle'' | ⟨hle'', howes⟩
        · exact Or.inl (by omega)
        · rcases hpay _ _ _ h₁ hlast howes with hlt | howes'
          · exact Or.inl (by omega)
          · exact Or.inr ⟨by omega, howes'⟩
  rcases hpaid with h' | ⟨h', _⟩ <;> omega

theorem append {s'' : σ} {ls' : List ℓ} (h : Trace R s ls s') (h' : Trace R s' ls' s'') :
    Trace R s (ls ++ ls') s'' := by
  induction h' with
  | nil => rwa [List.append_nil]
  | snoc _ hlast ih =>
    rw [← List.append_assoc]
    exact ih.snoc hlast

theorem map {ℓ' : Type} {R' : σ → ℓ' → σ → Prop} {f : ℓ → ℓ'}
    (hR : ∀ s l s', R s l s' → R' s (f l) s') (h : Trace R s ls s') :
    Trace R' s (ls.map f) s' := by
  induction h with
  | nil => exact .nil
  | snoc _ hlast ih =>
    rw [List.map_append]
    exact ih.snoc (hR _ _ _ hlast)

theorem single {l : ℓ} (h : R s l s') : Trace R s [l] s' := Trace.nil.snoc h

end Trace

/-! ## Histories

A run is given state by state.  `entries` tells what a step between two states adds to the
history. -/

section

variable {ε κ : Type} {entries : σ → σ → List ε} {run : Nat → σ} {n : Nat}

def history (entries : σ → σ → List ε) (run : Nat → σ) : Nat → List ε
  | 0 => []
  | n + 1 => history entries run n ++ entries (run n) (run (n + 1))

theorem reaches_of_steps {R : σ → σ → Prop} (h : ∀ i < n, R (run i) (run (i + 1))) :
    Relation.ReflTransGen R (run 0) (run n) := by
  induction n with
  | zero => exact .refl
  | succ n ih => exact (ih fun i hi => h i (Nat.lt_succ_of_lt hi)).tail (h n (Nat.lt_succ_self n))

theorem trace_history {β : Type} {R : β → ε → β → Prop} (view : σ → β)
    (h : ∀ i < n, Trace R (view (run i)) (entries (run i) (run (i + 1))) (view (run (i + 1)))) :
    Trace R (view (run 0)) (history entries run n) (view (run n)) := by
  induction n with
  | zero => exact .nil
  | succ n ih => exact (ih fun i hi => h i (Nat.lt_succ_of_lt hi)).append (h n (Nat.lt_succ_self n))

theorem filterMap_history {f : ε → Option κ} (collected : σ → List κ)
    (h : ∀ i < n, collected (run (i + 1)) =
      collected (run i) ++ (entries (run i) (run (i + 1))).filterMap f) :
    collected (run n) = collected (run 0) ++ (history entries run n).filterMap f := by
  induction n with
  | zero => exact (List.append_nil _).symm
  | succ n ih =>
    rw [h n (Nat.lt_succ_self n), ih fun i hi => h i (Nat.lt_succ_of_lt hi), history,
      List.filterMap_append, List.append_assoc]

end

end DurableQueue
