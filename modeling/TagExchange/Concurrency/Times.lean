import Mathlib.Order.Fin.Basic
import TagExchange.Concurrency.Past

/-! The moments of a history as a linear order: a time is a position in the history, where the newest
moment stands first.
-/

namespace Concurrency

variable {σ ε : Type}

/-- The times of a history. -/
abbrev Time (h : History σ ε) : Type := (Fin h.length)ᵒᵈ

namespace Time

variable {h : History σ ε}

/-- Where the moment stands in the history. -/
def position (x : Time h) : Nat :=
  (OrderDual.ofDual x).val

/-- The state at a time. -/
def state (x : Time h) : σ :=
  (h.get (OrderDual.ofDual x)).1

/-- The event with which the machine left that state. -/
def event (x : Time h) : ε :=
  (h.get (OrderDual.ofDual x)).2

/-- The moments that were over at a time. -/
def past (x : Time h) : History σ ε :=
  h.drop (x.position + 1)

theorem lt_iff {x y : Time h} : x < y ↔ y.position < x.position :=
  Iff.rfl

theorem getElem?_position (x : Time h) : h[x.position]? = some (x.state, x.event) :=
  List.getElem?_eq_getElem (OrderDual.ofDual x).isLt

theorem exists_of_getElem? {m : Nat} {s : σ} {e : ε} (found : h[m]? = some (s, e))
    : ∃ x : Time h, x.position = m ∧ x.state = s ∧ x.event = e := by
  obtain ⟨bound, value⟩ := List.getElem?_eq_some_iff.mp found
  exact ⟨OrderDual.toDual ⟨m, bound⟩, rfl, congrArg Prod.fst value, congrArg Prod.snd value⟩

/-- An earlier time stands in the past of a later one. -/
theorem getElem?_past {x y : Time h} (order : x < y)
    : y.past[x.position - (y.position + 1)]? = some (x.state, x.event) := by
  have later := lt_iff.mp order
  rw [past, List.getElem?_drop, ← x.getElem?_position]
  congr 1
  omega

/-- What was over at a time has a time before it. -/
theorem exists_of_getElem?_past {y : Time h} {m : Nat} {s : σ} {e : ε}
    (found : y.past[m]? = some (s, e))
    : ∃ x : Time h,
        x < y
        ∧ x.position = y.position + 1 + m
        ∧ x.state = s
        ∧ x.event = e
        ∧ x.past = y.past.drop (m + 1) := by
  rw [past, List.getElem?_drop] at found
  obtain ⟨x, position, state, event⟩ := exists_of_getElem? found
  refine ⟨x, lt_iff.mpr (by omega), position, state, event, ?_⟩
  rw [past, past, List.drop_drop, position]
  congr 1

/-- What cannot happen again happens at one time. -/
theorem eq_of_apart {P : Time h → Prop} {x y : Time h} (apart : ∀ {x y}, x < y → P x → ¬ P y)
    (here : P x) (there : P y)
    : x = y := by
  rcases lt_trichotomy x y with less | same | more
  · exact absurd there (apart less here)
  · exact same
  · exact absurd here (apart more there)

end Time

variable {M : Machine σ ε} {G R Q : Guard σ ε} {h : History σ ε} {s' : σ}

/-- What was so since an earlier moment: that moment has a time, and it was so at all times since. -/
theorem Since.moment (since : Since R Q h)
    : ∃ m s e,
        h[m]? = some (s, e)
        ∧ Q (h.drop (m + 1)) s e
        ∧ ∀ n < m, ∀ s e, h[n]? = some (s, e) → R (h.drop (n + 1)) s e := by
  induction since with
  | @here h s e holds => exact ⟨0, s, e, rfl, holds, fun _ less => absurd less (Nat.not_lt_zero _)⟩
  | @later h s₀ e₀ _ kept ih =>
      obtain ⟨m, s, e, found, holds, again⟩ := ih
      refine ⟨m + 1, s, e, by simpa using found, holds, fun n less s e here => ?_⟩
      cases n with
      | zero =>
          obtain ⟨rfl, rfl⟩ : s₀ = s ∧ e₀ = e := by simpa using here
          exact kept
      | succ n => exact again n (Nat.lt_of_succ_lt_succ less) s e (by simpa using here)

/-- A moment that is over has a time. -/
theorem Once.time (once : Once Q h) : ∃ x : Time h, Q x.past x.state x.event := by
  obtain ⟨m, s, e, found, holds⟩ := once.moment
  obtain ⟨x, rfl, rfl, rfl⟩ := Time.exists_of_getElem? found
  exact ⟨x, holds⟩

/-- The times of what was so since an earlier moment. -/
theorem Since.time {y : Time h} (since : Since R Q y.past)
    : ∃ x : Time h,
        x < y
        ∧ Q x.past x.state x.event
        ∧ ∀ z : Time h, x < z → z < y → R z.past z.state z.event := by
  obtain ⟨m, s, e, found, holds, again⟩ := since.moment
  obtain ⟨x, order, position, rfl, rfl, past⟩ := Time.exists_of_getElem?_past found
  refine ⟨x, order, past ▸ holds, fun z after before => ?_⟩
  have later := Time.lt_iff.mp after
  have earlier := Time.lt_iff.mp before
  have kept := again (z.position - (y.position + 1)) (by omega) _ _ (Time.getElem?_past before)
  rw [Time.past, List.drop_drop] at kept
  rw [Time.past]
  convert kept using 2
  omega

/-- A time that was over satisfied `Q` once. -/
theorem Time.once {x y : Time h} (order : x < y) (holds : Q x.past x.state x.event)
    : Once Q y.past := by
  refine once_of_moment (Time.getElem?_past order) ?_
  have later := Time.lt_iff.mp order
  rw [Time.past] at holds ⊢
  rw [List.drop_drop]
  convert holds using 2
  omega

/-- Every time closes a run of its own. -/
theorem Machine.Run.time (run : M.Run G h s') (x : Time h)
    : M.Run G x.past x.state ∧ G x.past x.state x.event :=
  run.moment x.getElem?_position

end Concurrency
