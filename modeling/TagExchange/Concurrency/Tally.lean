import TagExchange.Concurrency.Runs

/-! Counting moments of a run, and potentials that account for what has been counted. -/

namespace Concurrency

variable {σ ε : Type} {p q : σ → ε → Bool} {h : History σ ε} {s : σ} {e : ε}

/-- How many moments of a history satisfy a test. -/
def tally (p : σ → ε → Bool) (h : History σ ε) : Nat :=
  h.countP fun moment => p moment.1 moment.2

@[simp] theorem tally_nil : tally p ([] : History σ ε) = 0 :=
  rfl

theorem tally_cons : tally p ((s, e) :: h) = tally p h + if p s e then 1 else 0 :=
  List.countP_cons ..

namespace Machine

variable {M : Machine σ ε} {G : Guard σ ε}

/-- Where each step moves a potential by what it counts, so does a run, by induction. -/
theorem Run.balance (φ : σ → Int)
    (moves
      : ∀ {h s e s'},
          G h s e
          → M.step s e = some s'
          → φ s' - φ s = (if p s e then 1 else 0) - (if q s e then 1 else 0))
    (run : M.Run G h s)
    : φ s - φ M.start = (tally p h : Int) - tally q h := by
  induction run with
  | start => simp
  | @next h s e s' _ ok step ih =>
      have here := moves ok step
      rw [tally_cons, tally_cons]
      split at here <;> split at here <;> simp_all <;> omega

/-- Where each step that counts uses up a potential, the potential bounds the count. -/
theorem Run.bounded (φ : σ → Nat)
    (uses
      : ∀ {h s e s'},
          G h s e → M.step s e = some s' → φ s' + (if p s e then 1 else 0) ≤ φ s)
    (run : M.Run G h s)
    : φ s + tally p h ≤ φ M.start := by
  induction run with
  | start => simp
  | @next h s e s' _ ok step ih =>
      have here := uses ok step
      rw [tally_cons]
      omega

end Machine

end Concurrency
