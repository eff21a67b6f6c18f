import TagExchange.Concurrency.Past

/-! Refinement between two machines: the events of the one that the other sees are its own steps,
and the others leave its state as it is.
-/

namespace Concurrency

variable {σ ε σ' ε' : Type} {abs : σ → σ'} {label : σ → ε → Option ε'}

/-- The moments of a history that an abstract machine sees. -/
def seen (abs : σ → σ') (label : σ → ε → Option ε') (h : History σ ε) : History σ' ε' :=
  h.filterMap fun moment => (label moment.1 moment.2).map fun e => (abs moment.1, e)

theorem seen_cons_of_none {h : History σ ε} {s : σ} {e : ε} (unseen : label s e = none)
    : seen abs label ((s, e) :: h) = seen abs label h :=
  List.filterMap_cons_none (by simp [unseen])

theorem seen_cons_of_some {h : History σ ε} {s : σ} {e : ε} {e' : ε'} (sees : label s e = some e')
    : seen abs label ((s, e) :: h) = (abs s, e') :: seen abs label h :=
  List.filterMap_cons_some (by simp [sees])

/-- Every guarded step of `M` is a step of `N`, or one that `N` does not see. -/
structure Refines (M : Machine σ ε) (G : Guard σ ε) (N : Machine σ' ε') (abs : σ → σ')
    (label : σ → ε → Option ε') : Prop where
  start : abs M.start = N.start
  unseen
    : ∀ {h s e s'},
        M.Run G h s → G h s e → M.step s e = some s' → label s e = none → abs s' = abs s
  sees
    : ∀ {h s e s' e'},
        M.Run G h s
        → G h s e
        → M.step s e = some s'
        → label s e = some e'
        → N.step (abs s) e' = some (abs s')

/-- A run of the one machine is a run of the other, by induction on the run. -/
theorem Refines.run {M : Machine σ ε} {G : Guard σ ε} {N : Machine σ' ε'}
    (x : Refines M G N abs label) {h : History σ ε} {s : σ} (run : M.Run G h s)
    : N.Run anyStep (seen abs label h) (abs s) := by
  induction run with
  | start => exact x.start ▸ .start
  | @next h s e s' before ok step ih =>
      cases sees : label s e with
      | none =>
          rw [seen_cons_of_none sees, x.unseen before ok step sees]
          exact ih
      | some e' =>
          rw [seen_cons_of_some sees]
          exact ih.next trivial (x.sees before ok step sees)

/-- What has held since a moment that the other machine saw has held for it too, by induction on
what came later.
-/
theorem Since.seen {R Q : Guard σ ε} {R' Q' : Guard σ' ε'}
    (sees : ∀ h s e, Q h s e → ∃ e', label s e = some e' ∧ Q' (seen abs label h) (abs s) e')
    (kept : ∀ h s e e', R h s e → label s e = some e' → R' (seen abs label h) (abs s) e')
    {h : History σ ε} (since : Since R Q h)
    : Since R' Q' (seen abs label h) := by
  induction since with
  | @here h s e holds =>
      obtain ⟨e', same, holds⟩ := sees h s e holds
      rw [seen_cons_of_some same]
      exact .here holds
  | @later h s e _ now ih =>
      cases same : label s e with
      | none =>
          rw [seen_cons_of_none same]
          exact ih
      | some e' =>
          rw [seen_cons_of_some same]
          exact .later ih (kept h s e e' now same)

end Concurrency
