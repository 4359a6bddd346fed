import Mathlib.Data.Set.Card
import DurableQueue.Lib.Trace

/-! A board of tickets.  A request is admitted to a queue with room, under a ticket that no
other request has; it is tried a limited number of times, and it ends once. -/

namespace DurableQueue

inductive Standing
  | waiting | running | completed | dead | cancelled
  deriving DecidableEq

def Standing.isEnded : Standing → Bool
  | .waiting | .running => false
  | .completed | .dead | .cancelled => true

structure Ticket (ρ : Type) where
  request : ρ
  attempts : Nat
  standing : Standing

inductive Deed
  | start (attempt : Nat) | retry | complete | die | cancel

/-- Which queue a request is for, how often it is tried, and how many open requests a queue
takes, if it exists. -/
structure Rules (ρ κ : Type) where
  queue : ρ → κ
  limit : ρ → Nat
  capacity : κ → Option Nat

variable {ι ρ κ : Type} {rules : Rules ρ κ}

namespace Ticket

def after (t : Ticket ρ) : Deed → Ticket ρ
  | .start attempt => { t with attempts := attempt, standing := .running }
  | .retry => { t with standing := .waiting }
  | .complete => { t with standing := .completed }
  | .die => { t with standing := .dead }
  | .cancel => { t with standing := .cancelled }

/-- The first attempt is always granted. -/
inductive Permits (rules : Rules ρ κ) (t : Ticket ρ) : Deed → Prop
  | start (h : t.standing = .waiting) (hleft : t.attempts < max 1 (rules.limit t.request)) :
      Permits rules t (.start (t.attempts + 1))
  | retry (h : t.standing = .running) (hleft : t.attempts < rules.limit t.request) :
      Permits rules t .retry
  | complete (h : t.standing = .running) : Permits rules t .complete
  | die (h : t.standing = .running) : Permits rules t .die
  | cancel (h : t.standing.isEnded = false) : Permits rules t .cancel

def recovered (rules : Rules ρ κ) (t : Ticket ρ) : Ticket ρ :=
  if t.standing = .running then t.after (if t.attempts < rules.limit t.request then .retry else .die)
  else t

structure Leads (t t' : Ticket ρ) : Prop where
  request : t'.request = t.request
  attempts : t.attempts ≤ t'.attempts
  ended : t.standing.isEnded → t' = t

theorem Leads.refl (t : Ticket ρ) : Leads t t := ⟨rfl, le_rfl, fun _ => rfl⟩

theorem Leads.trans {t t' t'' : Ticket ρ} (h : Leads t t') (h' : Leads t' t'') :
    Leads t t'' where
  request := h'.request.trans h.request
  attempts := h.attempts.trans h'.attempts
  ended hended := by
    have heq := h.ended hended
    subst heq
    exact h'.ended hended

theorem Permits.leads {t : Ticket ρ} {deed : Deed} (h : t.Permits rules deed) :
    Leads t (t.after deed) := by
  have hopen : t.standing.isEnded = false := by
    cases h with
    | cancel h => exact h
    | start h | retry h | complete h | die h => rw [h]; rfl
  refine ⟨?_, ?_, fun hended => by rw [hopen] at hended; cases hended⟩
  · cases h <;> rfl
  · cases h with
    | start => exact Nat.le_succ _
    | retry | complete | die | cancel => exact le_rfl

end Ticket

abbrev Board (ι ρ : Type) := ι → Option (Ticket ρ)

inductive Move (ι ρ : Type)
  | accept (id : ι) (request : ρ)
  | act (id : ι) (deed : Deed)

def Move.started? : Move ι ρ → Option (ι × Nat)
  | .act id (.start attempt) => some (id, attempt)
  | _ => none

namespace Board

def recovered (rules : Rules ρ κ) (b : Board ι ρ) : Board ι ρ :=
  fun id => (b id).map (Ticket.recovered rules)

def openIn (rules : Rules ρ κ) (b : Board ι ρ) (q : κ) : Set ι :=
  {id | ∃ t, b id = some t ∧ rules.queue t.request = q ∧ t.standing.isEnded = false}

variable [DecidableEq ι]

inductive Step (rules : Rules ρ κ) (b : Board ι ρ) : Move ι ρ → Board ι ρ → Prop
  | accept {id : ι} {request : ρ} {c : Nat} (hfresh : b id = none)
      (hqueue : rules.capacity (rules.queue request) = some c)
      (hroom : (b.openIn rules (rules.queue request)).encard < c) :
      Step rules b (.accept id request) (Function.update b id (some ⟨request, 0, .waiting⟩))
  | act {id : ι} {t : Ticket ρ} {deed : Deed} (ht : b id = some t) (h : t.Permits rules deed) :
      Step rules b (.act id deed) (Function.update b id (some (t.after deed)))

theorem Step.leads {b b' : Board ι ρ} {m : Move ι ρ} (h : Step rules b m b') {id : ι}
    {t : Ticket ρ} (ht : b id = some t) : ∃ t', b' id = some t' ∧ t.Leads t' := by
  cases h with
  | @accept id' request c hfresh =>
    have hne : id ≠ id' := by
      rintro rfl
      rw [hfresh] at ht
      cases ht
    exact ⟨t, by rwa [Function.update_of_ne hne], .refl t⟩
  | @act id' t' deed ht' h =>
    by_cases heq : id = id'
    · subst heq
      rw [ht] at ht'
      cases ht'
      exact ⟨_, Function.update_self .., h.leads⟩
    · exact ⟨t, by rwa [Function.update_of_ne heq], .refl t⟩

theorem leads_of_trace {b b' : Board ι ρ} {moves : List (Move ι ρ)}
    (h : Trace (Step rules) b moves b') {id : ι} {t : Ticket ρ} (ht : b id = some t) :
    ∃ t', b' id = some t' ∧ t.Leads t' := by
  refine h.invariant (I := fun b => ∃ t', b id = some t' ∧ t.Leads t') ?_ ⟨t, ht, .refl t⟩
  rintro b₁ m b₂ ⟨t₁, ht₁, hleads⟩ hstep
  obtain ⟨t₂, ht₂, hleads₂⟩ := hstep.leads ht₁
  exact ⟨t₂, ht₂, hleads.trans hleads₂⟩

end Board

end DurableQueue
