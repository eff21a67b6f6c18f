import Mathlib.Order.WellFounded
import TagExchange.Concurrency.Runs

/-! Machines that settle: with events of one kind every run comes to an end, and a property holds
where it ends. A measure shows the first part, an argument about stuck states the second.
-/

namespace Concurrency.Machine

variable {σ ε : Type}

/-- No event of this kind is enabled. -/
def Stuck (M : Machine σ ε) (A : ε → Prop) (s : σ) : Prop :=
  ∀ e, A e → M.step s e = none

/-- However the machine goes on with events of this kind, it gets stuck, and then `P` holds. -/
inductive Settles (M : Machine σ ε) (A : ε → Prop) (P : σ → Prop) : σ → Prop
  | intro {s} (here : M.Stuck A s → P s)
    (next : ∀ e s', A e → M.step s e = some s' → Settles M A P s')
    : Settles M A P s

variable {M : Machine σ ε} {A : ε → Prop} {P : σ → Prop} {s : σ}

/-- Where every step uses up a measure, and every stuck state has the property, the machine settles:
by induction on the measure. The invariant `I` may be used for both.
-/
theorem settles_of_measure {α : Type} [LT α] [WellFoundedLT α] (μ : σ → α) {I : σ → Prop}
    (keeps : ∀ {s e s'}, I s → A e → M.step s e = some s' → I s')
    (uses : ∀ {s e s'}, I s → A e → M.step s e = some s' → μ s' < μ s)
    (stuck : ∀ {s}, I s → M.Stuck A s → P s) (here : I s)
    : M.Settles A P s := by
  induction measured : μ s using WellFoundedLT.induction generalizing s with
  | ind m ih =>
      subst measured
      exact .intro (stuck here) fun e s' kind step =>
        ih (μ s') (uses here kind step) (keeps here kind step) rfl

end Concurrency.Machine
