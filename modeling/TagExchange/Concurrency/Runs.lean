import Mathlib.Data.List.Basic

/-! Guarded runs of an executable machine, with the history of the states they passed.
A history lists, newest first, each state together with the event that left it, so a
statement about a run can name an earlier moment without a ghost field in the state.
-/

namespace Concurrency

/-- An executable machine: `step s e` is `none` where the event is not enabled. -/
structure Machine (σ ε : Type) where
  start : σ
  step : σ → ε → Option σ

/-- The moments of a run that are over, newest first. -/
abbrev History (σ ε : Type) := List (σ × ε)

/-- A condition on one step: the past, the state before the step, and its event. -/
abbrev Guard (σ ε : Type) := History σ ε → σ → ε → Prop

/-- No condition: every enabled step may be taken. -/
def anyStep {σ ε : Type} : Guard σ ε := fun _ _ _ => True

instance {σ ε : Type} (h : History σ ε) (s : σ) (e : ε) : Decidable (anyStep h s e) :=
  isTrue trivial

namespace Machine

variable {σ ε : Type}

/-- `M.Run G h s`: a run all of whose steps meet `G` has passed the moments `h` and
stands in `s`.
-/
inductive Run (M : Machine σ ε) (G : Guard σ ε) : History σ ε → σ → Prop
  | start : Run M G [] M.start
  | next {h s e s'} (before : Run M G h s) (ok : G h s e) (step : M.step s e = some s')
    : Run M G ((s, e) :: h) s'

/-- The same machine, started in another state. -/
def startAt (M : Machine σ ε) (s : σ) : Machine σ ε :=
  { M with start := s }

variable {M : Machine σ ε} {G G' : Guard σ ε}

/-- What holds at the start and is kept by every guarded step holds all along the run. -/
theorem Run.invariant {P : History σ ε → σ → Prop} (start : P [] M.start)
    (keep
      : ∀ {h s e s'},
          M.Run G h s → P h s → G h s e → M.step s e = some s' → P ((s, e) :: h) s')
    {h s} (run : M.Run G h s)
    : P h s := by
  induction run with
  | start => exact start
  | next before ok step ih => exact keep before ih ok step

/-- A guard may be replaced by one that follows from it at every state it lets through. -/
theorem Run.strengthen
    (imp : ∀ {h s e}, M.Run G' h s → G h s e → G' h s e)
    {h s} (run : M.Run G h s)
    : M.Run G' h s := by
  induction run with
  | start => exact .start
  | next _ ok step ih => exact .next ih (imp ih ok) step

/-- Weakening the guard keeps the run. -/
theorem Run.mono (imp : ∀ h s e, G h s e → G' h s e) {h s} (run : M.Run G h s)
    : M.Run G' h s :=
  run.strengthen (fun _ ok => imp _ _ _ ok)

/-- The last step of a run: what it started from, that it met the guard, and its outcome. -/
theorem Run.last {h s e s'} (run : M.Run G ((s, e) :: h) s')
    : M.Run G h s ∧ G h s e ∧ M.step s e = some s' := by
  cases run with
  | next before ok step => exact ⟨before, ok, step⟩

/-- A run that meets two guards meets them together, by induction on the run. -/
theorem Run.both {h s} (run : M.Run G h s) (run' : M.Run G' h s)
    : M.Run (fun h s e => G h s e ∧ G' h s e) h s := by
  induction run with
  | start => exact .start
  | next _ ok step ih =>
      obtain ⟨before, ok', -⟩ := run'.last
      exact (ih before).next ⟨ok, ok'⟩ step

/-- Every moment of the history closes a run of its own, by induction on what came later. -/
theorem Run.earlier {newer older : History σ ε} {s e s'}
    (run : M.Run G (newer ++ (s, e) :: older) s')
    : M.Run G older s ∧ G older s e := by
  induction newer generalizing s' with
  | nil => exact ⟨run.last.1, run.last.2.1⟩
  | cons moment newer ih => exact ih (run.last (s := moment.1) (e := moment.2)).1

/-- Two machines that make the same steps in every state that guarded runs of the first one reach
have the same guarded runs, by induction on the run.
-/
theorem Run.iff_of_agree {M' : Machine σ ε} (start : M'.start = M.start)
    (agree : ∀ {h s e}, M.Run G h s → G h s e → M'.step s e = M.step s e) {h s}
    : M'.Run G h s ↔ M.Run G h s := by
  constructor
  · intro run
    induction run with
    | start => exact start ▸ .start
    | next _ ok step ih => exact ih.next ok (agree ih ok ▸ step)
  · intro run
    induction run with
    | start => exact start ▸ .start
    | next before ok step ih => exact ih.next ok ((agree before ok).trans step)

/-- A run from the state that another run has reached prolongs it, by induction on the later
run.
-/
theorem Run.append {h h' s s'} (run : M.Run G h s) (later : (M.startAt s).Run G' h' s')
    (imp : ∀ {newer s e}, G' newer s e → G (newer ++ h) s e)
    : M.Run G (h' ++ h) s' := by
  induction later with
  | start => exact run
  | next _ ok step ih => exact ih.next (imp ok) step

/-- The moment at a position of the history closes the run that the older moments made. -/
theorem Run.moment {h s s₁ e₁} {m : Nat} (run : M.Run G h s) (here : h[m]? = some (s₁, e₁))
    : M.Run G (h.drop (m + 1)) s₁ ∧ G (h.drop (m + 1)) s₁ e₁ := by
  obtain ⟨bound, found⟩ := List.getElem?_eq_some_iff.mp here
  have split : h = h.take m ++ (s₁, e₁) :: h.drop (m + 1) := by
    rw [← found, ← List.drop_eq_getElem_cons bound, List.take_append_drop]
  rw [split] at run
  exact run.earlier

-----------------------------------------------------------------------------------------
-- Replaying a list of events
-----------------------------------------------------------------------------------------

variable (M) (G)

/-- Runs the events in order, checking the guard before each of them. -/
def replay [∀ h s e, Decidable (G h s e)]
    : List ε → History σ ε → σ → Option (History σ ε × σ)
  | [], h, s => some (h, s)
  | e :: rest, h, s =>
      if G h s e then
        match M.step s e with
        | some s' => replay rest ((s, e) :: h) s'
        | none => none
      else
        none

variable {M} {G}

/-- A successful replay prolongs a guarded run, by induction on the events. -/
theorem Run.of_replay [∀ h s e, Decidable (G h s e)] {events : List ε}
    {h s h' s'} (run : M.Run G h s) (replayed : M.replay G events h s = some (h', s'))
    : M.Run G h' s' := by
  induction events generalizing h s with
  | nil =>
      obtain ⟨rfl, rfl⟩ := Prod.mk.inj (Option.some.inj replayed)
      exact run
  | cons e rest ih =>
      simp only [replay] at replayed
      split at replayed
      · next ok =>
          split at replayed
          · next after step => exact ih (run.next ok step) replayed
          · simp at replayed
      · simp at replayed

/-- A successful replay from the start that passes a test exhibits a guarded run. -/
theorem Run.exists_of_replay [∀ h s e, Decidable (G h s e)] (events : List ε)
    (test : History σ ε → σ → Bool)
    (passes : (M.replay G events [] M.start).any (fun end_ => test end_.1 end_.2) = true)
    : ∃ h s, M.Run G h s ∧ test h s = true := by
  obtain ⟨⟨h, s⟩, replayed, holds⟩ := (Option.any_eq_true _ _).mp passes
  exact ⟨h, s, Run.start.of_replay replayed, holds⟩

end Machine

end Concurrency
