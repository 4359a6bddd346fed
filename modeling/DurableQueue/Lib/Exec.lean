import Mathlib.Logic.Relation
import Mathlib.Tactic

/-! Pre- and postconditions for programs that change a state and may stop early.  A
program ends well in a state with a value, or badly in a state with an error; `wp` takes
a postcondition for either. -/

namespace DurableQueue

variable {ε σ α β : Type}

/-- From `s` the program ends in a state and value with `Q`, or in a state and error with `E`. -/
def wp (m : EStateM ε σ α) (Q : α → σ → Prop) (E : ε → σ → Prop) (s : σ) : Prop :=
  match m s with
  | .ok a s' => Q a s'
  | .error e s' => E e s'

section

variable {Q : α → σ → Prop} {E : ε → σ → Prop} {s : σ}

theorem wp_ok {m : EStateM ε σ α} {a : α} {s' : σ} (h : wp m Q E s) (hm : m s = .ok a s') :
    Q a s' := by
  simpa [wp, hm] using h

theorem wp_error {m : EStateM ε σ α} {e : ε} {s' : σ} (h : wp m Q E s)
    (hm : m s = .error e s') : E e s' := by
  simpa [wp, hm] using h

theorem wp_intro {m : EStateM ε σ α} (hQ : ∀ a s', m s = .ok a s' → Q a s')
    (hE : ∀ e s', m s = .error e s' → E e s') : wp m Q E s := by
  unfold wp
  split
  · exact hQ _ _ ‹_›
  · exact hE _ _ ‹_›

theorem wp_exists_ok {m : EStateM ε σ α} (h : wp m Q (fun _ _ => False) s) :
    ∃ a s', m s = .ok a s' ∧ Q a s' := by
  unfold wp at h
  split at h
  · rename_i a s' heq
    exact ⟨a, s', heq, h⟩
  · exact h.elim

theorem wp_mono {m : EStateM ε σ α} {Q' : α → σ → Prop} {E' : ε → σ → Prop}
    (h : wp m Q E s) (hQ : ∀ a s', Q a s' → Q' a s') (hE : ∀ e s', E e s' → E' e s') :
    wp m Q' E' s := by
  unfold wp at h ⊢
  split at h
  · exact hQ _ _ h
  · exact hE _ _ h

@[simp] theorem wp_pure (a : α) : wp (pure a : EStateM ε σ α) Q E s ↔ Q a s := Iff.rfl

@[simp] theorem wp_bind {Q : β → σ → Prop} (m : EStateM ε σ α) (f : α → EStateM ε σ β) :
    wp (m >>= f) Q E s ↔ wp m (fun a s' => wp (f a) Q E s') E s := by
  simp only [wp, bind, EStateM.bind]
  cases m s <;> rfl

@[simp] theorem wp_throw (e : ε) : wp (throw e : EStateM ε σ α) Q E s ↔ E e s := Iff.rfl

@[simp] theorem wp_get {Q : σ → σ → Prop} :
    wp (get : EStateM ε σ σ) Q E s ↔ Q s s := Iff.rfl

@[simp] theorem wp_set {Q : PUnit → σ → Prop} (s' : σ) :
    wp (set s' : EStateM ε σ PUnit) Q E s ↔ Q ⟨⟩ s' := Iff.rfl

@[simp] theorem wp_modify {Q : PUnit → σ → Prop} (f : σ → σ) :
    wp (modify f : EStateM ε σ PUnit) Q E s ↔ Q ⟨⟩ (f s) := Iff.rfl

@[simp] theorem wp_modifyGet (f : σ → α × σ) :
    wp (modifyGet f : EStateM ε σ α) Q E s ↔ Q (f s).1 (f s).2 := Iff.rfl

end

/-! ## Programs that leave a part of the state alone -/

/-- The program leaves `f` of the state as it is, also when it stops early. -/
def Keeps {τ : Type} (f : σ → τ) (m : EStateM ε σ α) : Prop :=
  ∀ s, wp m (fun _ s' => f s' = f s) (fun _ s' => f s' = f s) s

namespace Keeps

variable {τ : Type} {f : σ → τ}

theorem of_pure (a : α) : Keeps f (pure a : EStateM ε σ α) := fun _ => rfl

theorem bind {m : EStateM ε σ α} {g : α → EStateM ε σ β} (hm : Keeps f m)
    (hg : ∀ a, Keeps f (g a)) : Keeps f (m >>= g) := by
  intro s
  refine (wp_bind m g).mpr (wp_mono (hm s) (fun a s₁ h₁ => ?_) fun _ _ h => h)
  exact wp_mono (hg a s₁) (fun _ _ h => h.trans h₁) fun _ _ h => h.trans h₁

theorem of_get : Keeps f (get : EStateM ε σ σ) := fun _ => rfl

theorem of_modify {g : σ → σ} (h : ∀ s, f (g s) = f s) :
    Keeps f (modify g : EStateM ε σ PUnit) := h

theorem of_modifyGet {g : σ → α × σ} (h : ∀ s, f (g s).2 = f s) :
    Keeps f (modifyGet g : EStateM ε σ α) := h

theorem get_set {g : σ → σ} {k : σ → EStateM ε σ β} (h : ∀ s, f (g s) = f s)
    (hk : ∀ s, Keeps f (k s)) :
    Keeps f (get >>= fun s => set (g s) >>= fun _ => k s : EStateM ε σ β) :=
  fun s => wp_mono (hk s (g s)) (fun _ _ h' => h'.trans (h s)) fun _ _ h' => h'.trans (h s)

theorem comp {υ : Type} (g : τ → υ) {m : EStateM ε σ α} (h : Keeps f m) : Keeps (g ∘ f) m :=
  fun s => wp_mono (h s) (fun _ _ h => congrArg g h) fun _ _ h => congrArg g h

theorem ok {m : EStateM ε σ α} (h : Keeps f m) {s s' : σ} {a : α} (hm : m s = .ok a s') :
    f s' = f s := wp_ok (Q := fun _ s' => f s' = f s) (h s) hm

end Keeps

/-! ## Programs that stop early in known ways only -/

/-- The program ends well from every state, or badly with an error that `E` allows. -/
def Ends (E : ε → Prop) (m : EStateM ε σ α) : Prop :=
  ∀ s, wp m (fun _ _ => True) (fun e _ => E e) s

namespace Ends

variable {E : ε → Prop}

theorem of_pure (a : α) : Ends E (pure a : EStateM ε σ α) := fun _ => trivial

theorem bind {m : EStateM ε σ α} {g : α → EStateM ε σ β} (hm : Ends E m)
    (hg : ∀ a, Ends E (g a)) : Ends E (m >>= g) :=
  fun s => (wp_bind m g).mpr (wp_mono (hm s) (fun a s₁ _ => hg a s₁) fun _ _ h => h)

theorem of_get : Ends E (get : EStateM ε σ σ) := fun _ => trivial

theorem of_set (s : σ) : Ends E (set s : EStateM ε σ PUnit) := fun _ => trivial

theorem of_modify (g : σ → σ) : Ends E (modify g : EStateM ε σ PUnit) := fun _ => trivial

theorem of_modifyGet (g : σ → α × σ) : Ends E (modifyGet g : EStateM ε σ α) := fun _ => trivial

end Ends

/-! ## Running a program on one state -/

def finalState (m : EStateM ε σ α) (s : σ) : σ :=
  match m s with
  | .ok _ s' => s'
  | .error _ s' => s'

def value? (m : EStateM ε σ α) (s : σ) : Option α :=
  match m s with
  | .ok a _ => some a
  | .error _ _ => none

theorem eq_ok_of_value {m : EStateM ε σ α} {s : σ} {a : α} (h : value? m s = some a) :
    m s = .ok a (finalState m s) := by
  unfold value? at h
  unfold finalState
  split at h
  · rename_i heq
    cases h
    rw [heq]
  · cases h

/-! ## Programs made of steps -/

/-- Run from `s`, with the steps counted from `s₀`: the program ends after some `R`-steps
and with `Q`; if it stops early, then after some `R`-steps and in the way `C` says. -/
def Does (R : σ → σ → Prop) (C : σ → ε → σ → Prop) (m : EStateM ε σ α) (Q : α → σ → Prop)
    (s₀ s : σ) : Prop :=
  wp m (fun a s' => Relation.ReflTransGen R s₀ s' ∧ Q a s')
    (fun e s' => ∃ s₁, Relation.ReflTransGen R s₀ s₁ ∧ C s₁ e s') s

namespace Does

variable {R : σ → σ → Prop} {C : σ → ε → σ → Prop} {Q : α → σ → Prop} {s₀ s : σ}

theorem of_pure {a : α} (hsteps : Relation.ReflTransGen R s₀ s) (h : Q a s) :
    Does R C (pure a : EStateM ε σ α) Q s₀ s := ⟨hsteps, h⟩

theorem of_modify {Q : PUnit → σ → Prop} {f : σ → σ} (hsteps : Relation.ReflTransGen R s₀ (f s))
    (h : Q ⟨⟩ (f s)) : Does R C (modify f : EStateM ε σ PUnit) Q s₀ s := ⟨hsteps, h⟩

theorem mono {m : EStateM ε σ α} {Q' : α → σ → Prop} (h : Does R C m Q s₀ s)
    (hQ : ∀ a s', Relation.ReflTransGen R s₀ s' → Q a s' → Q' a s') : Does R C m Q' s₀ s :=
  wp_mono h (fun a s' hq => ⟨hq.1, hQ a s' hq.1 hq.2⟩) (fun _ _ he => he)

theorem after {m : EStateM ε σ α} {s₁ : σ} (hsteps : Relation.ReflTransGen R s₀ s₁)
    (h : Does R C m Q s₁ s) : Does R C m Q s₀ s :=
  wp_mono h (fun _ _ hq => ⟨hsteps.trans hq.1, hq.2⟩)
    (fun _ _ ⟨s₂, h₂, hc⟩ => ⟨s₂, hsteps.trans h₂, hc⟩)

theorem bind {m : EStateM ε σ α} {f : α → EStateM ε σ β} {Q₁ : α → σ → Prop}
    {Q : β → σ → Prop} (hm : Does R C m Q₁ s₀ s)
    (hf : ∀ a s₁, Relation.ReflTransGen R s₀ s₁ → Q₁ a s₁ → Does R C (f a) Q s₁ s₁) :
    Does R C (m >>= f) Q s₀ s :=
  (wp_bind m f).mpr (wp_mono hm (fun a s₁ h => (hf a s₁ h.1 h.2).after h.1) (fun _ _ he => he))

theorem get_bind {f : σ → EStateM ε σ β} {Q : β → σ → Prop} (h : Does R C (f s) Q s₀ s) :
    Does R C (get >>= f) Q s₀ s := h

theorem set_bind {s' : σ} {f : PUnit → EStateM ε σ β} {Q : β → σ → Prop}
    (h : Does R C (f ⟨⟩) Q s₀ s') : Does R C (set s' >>= f) Q s₀ s := h

theorem modify_bind {g : σ → σ} {f : PUnit → EStateM ε σ β} {Q : β → σ → Prop}
    (h : Does R C (f ⟨⟩) Q s₀ (g s)) : Does R C (modify g >>= f) Q s₀ s := h

end Does

end DurableQueue
