import TagExchange.Concurrency.Runs

/-! The past-time operators of temporal logic, read off the history of a run.
A predicate on moments has the type of a guard: it sees the past of the moment, the state
and the event that leaves it.
-/

namespace Concurrency

variable {σ ε : Type}

/-- Some moment satisfied `Q`, and every later one `R`. -/
inductive Since (R Q : Guard σ ε) : History σ ε → Prop
  | here {h s e} (holds : Q h s e) : Since R Q ((s, e) :: h)
  | later {h s e} (earlier : Since R Q h) (kept : R h s e) : Since R Q ((s, e) :: h)

/-- Some moment satisfied `Q`. -/
abbrev Once (Q : Guard σ ε) : History σ ε → Prop :=
  Since anyStep Q

variable {R R' Q Q' : Guard σ ε} {h : History σ ε}

/-- Both predicates may be replaced by weaker ones, by induction on what came later. -/
theorem Since.mono (kept : ∀ h s e, R h s e → R' h s e) (holds : ∀ h s e, Q h s e → Q' h s e)
    (since : Since R Q h)
    : Since R' Q' h := by
  induction since with
  | here now => exact .here (holds _ _ _ now)
  | later _ again ih => exact .later ih (kept _ _ _ again)

theorem Since.once (since : Since R Q h) : Once Q h :=
  since.mono (fun _ _ _ _ => trivial) (fun _ _ _ now => now)

theorem Once.mono (holds : ∀ h s e, Q h s e → Q' h s e) (once : Once Q h) : Once Q' h :=
  Since.mono (fun _ _ _ kept => kept) holds once

/-- A moment that has passed stays passed. -/
theorem Once.cons (once : Once Q h) (s : σ) (e : ε) : Once Q ((s, e) :: h) :=
  .later once trivial

/-- The past of the past is past. -/
theorem Once.join (once : Once (fun past _ _ => Once Q past) h) : Once Q h := by
  induction once with
  | here earlier => exact earlier.cons _ _
  | later _ _ ih => exact ih.cons _ _

theorem not_once_nil : ¬ Once Q ([] : History σ ε) := nofun

/-- The moment at which a predicate held, with what came before it. -/
theorem Once.moment (once : Once Q h)
    : ∃ m s e, h[m]? = some (s, e) ∧ Q (h.drop (m + 1)) s e := by
  induction once with
  | @here h s e holds => exact ⟨0, s, e, rfl, holds⟩
  | later _ _ ih =>
      obtain ⟨m, s, e, found, holds⟩ := ih
      exact ⟨m + 1, s, e, by simpa using found, holds⟩

theorem once_of_moment {m : Nat} {s : σ} {e : ε} (found : h[m]? = some (s, e))
    (holds : Q (h.drop (m + 1)) s e)
    : Once Q h := by
  induction h generalizing m with
  | nil => simp at found
  | cons moment h ih =>
      cases m with
      | zero =>
          obtain rfl : moment = (s, e) := by simpa using found
          exact .here holds
      | succ m => exact (ih (by simpa using found) holds).cons _ _

theorem once_of_mem {P : σ → ε → Prop} {s : σ} {e : ε} (member : (s, e) ∈ h) (holds : P s e)
    : Once (fun _ s e => P s e) h := by
  obtain ⟨m, found⟩ := List.getElem?_of_mem member
  exact once_of_moment found holds

/-- What a run guarantees of each of its moments may be used of the one that is meant. -/
theorem Since.strengthen {M : Machine σ ε} {G : Guard σ ε} {s' : σ} (run : M.Run G h s')
    (holds : ∀ {h s e}, M.Run G h s → G h s e → Q h s e → Q' h s e) (since : Since R Q h)
    : Since R Q' h := by
  induction since generalizing s' with
  | here now =>
      obtain ⟨before, ok, -⟩ := run.last
      exact .here (holds before ok now)
  | later _ kept ih => exact .later (ih run.last.1) kept

theorem Once.strengthen {M : Machine σ ε} {G : Guard σ ε} {s' : σ} (run : M.Run G h s')
    (holds : ∀ {h s e}, M.Run G h s → G h s e → Q h s e → Q' h s e) (once : Once Q h)
    : Once Q' h :=
  Since.strengthen run holds once

/-- Which of several predicates held at the moment that is meant. -/
theorem Since.choose {ι : Sort*} {Q : ι → Guard σ ε} (since : Since R (fun h s e => ∃ i, Q i h s e) h)
    : ∃ i, Since R (Q i) h := by
  induction since with
  | here holds =>
      obtain ⟨i, holds⟩ := holds
      exact ⟨i, .here holds⟩
  | later _ kept ih =>
      obtain ⟨i, since⟩ := ih
      exact ⟨i, since.later kept⟩

/-- Two predicates that can only hold at the same moments held last at the same one. -/
theorem Since.both (apart : ∀ h s e, R h s e → ¬ Q h s e) (apart' : ∀ h s e, R h s e → ¬ Q' h s e)
    (since : Since R Q h) (since' : Since R Q' h)
    : Since R (fun h s e => Q h s e ∧ Q' h s e) h := by
  induction since with
  | here holds =>
      cases since' with
      | here holds' => exact .here ⟨holds, holds'⟩
      | later _ kept => exact absurd holds (apart _ _ _ kept)
  | later _ kept ih =>
      cases since' with
      | here holds' => exact absurd holds' (apart' _ _ _ kept)
      | later earlier _ => exact .later (ih earlier) kept

/-- A moment that came after another one has it in its past, by induction on what came later. -/
theorem Once.since {M : Machine σ ε} {G : Guard σ ε} {s' : σ} (run : M.Run G h s')
    (apart : ∀ {h s e}, M.Run G h s → Q h s e → ¬ Once Q' ((s, e) :: h)) (once : Once Q' h)
    (since : Since R Q h)
    : Once (fun past s e => Q' past s e ∧ Since R Q past) h := by
  induction once generalizing s' with
  | here now =>
      cases since with
      | here holds => exact absurd (.here now) (apart run.last.1 holds)
      | later earlier _ => exact .here ⟨now, earlier⟩
  | later before _ ih =>
      cases since with
      | here holds => exact absurd (Once.cons before _ _) (apart run.last.1 holds)
      | later earlier _ => exact Once.cons (ih run.last.1 earlier) _ _

/-- `Since`, evaluated for predicates that look at the present moment alone. -/
def sinceTest (r q : σ → ε → Bool) : History σ ε → Bool
  | [] => false
  | (s, e) :: h => q s e || r s e && sinceTest r q h

theorem since_of_test {r q : σ → ε → Bool} (passes : sinceTest r q h = true)
    : Since (fun _ s e => r s e = true) (fun _ s e => q s e = true) h := by
  induction h with
  | nil => cases passes
  | cons moment h ih =>
      obtain ⟨s, e⟩ := moment
      rcases Bool.or_eq_true_iff.mp passes with now | later
      · exact .here now
      · obtain ⟨kept, earlier⟩ := Bool.and_eq_true_iff.mp later
        exact .later (ih earlier) kept

end Concurrency
