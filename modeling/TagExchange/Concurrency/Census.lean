import Mathlib.Algebra.BigOperators.Group.Finset.Basic
import Mathlib.Data.Set.Card

/-! Counting the threads that are at certain places.
One step moves one thread, so it changes such a count by at most one; the type of threads
may be infinite, as long as only finitely many are counted.
-/

namespace Concurrency

variable {τ σ : Type}

/-- The threads whose place satisfies `p`. -/
def census (place : τ → σ) (p : σ → Prop) : Set τ := {t | p (place t)}

/-- Exactly `n` threads are at a place that satisfies `p`. -/
def Counted (place : τ → σ) (p : σ → Prop) (n : Nat) : Prop :=
  (census place p).encard = n

namespace Counted

variable {place : τ → σ} {p : σ → Prop} {n : Nat}

theorem zero (nobody : ∀ t, ¬ p (place t)) : Counted place p 0 := by
  have empty : census place p = ∅ := Set.eq_empty_of_forall_notMem nobody
  simp [Counted, empty]

/-- A count of zero means that nobody is there. -/
theorem nobody (count : Counted place p 0) (t : τ) : ¬ p (place t) := by
  intro here
  have member : t ∈ census place p := here
  have empty : census place p = ∅ := Set.encard_eq_zero.mp (by simpa [Counted] using count)
  simp [empty] at member

theorem pos (count : Counted place p n) {t : τ} (here : p (place t)) : 0 < n := by
  refine Nat.pos_of_ne_zero ?_
  rintro rfl
  exact count.nobody t here

/-- The count is a function of the places. -/
theorem unique {m : Nat} (count : Counted place p n) (again : Counted place p m) : n = m := by
  simpa [Counted] using count.symm.trans again

/-- The same threads counted by another description. -/
theorem congr {q : σ → Prop} (count : Counted place p n) (same : ∀ t, p (place t) ↔ q (place t))
    : Counted place q n := by
  have equal : census place p = census place q := Set.ext fun t => same t
  rw [Counted, ← equal]
  exact count

/-- Another thread that could be counted makes room for one more. -/
theorem room {q : σ → Prop} {t : τ} (count : Counted place p n) (within : ∀ x, p x → q x)
    (out : ¬ p (place t)) (candidate : q (place t))
    : ((n + 1 : Nat) : ℕ∞) ≤ (census place q).encard := by
  have fresh : t ∉ census place p := out
  have inside : insert t (census place p) ⊆ census place q :=
    Set.insert_subset candidate fun u here => within (place u) here
  calc ((n + 1 : Nat) : ℕ∞) = (insert t (census place p)).encard := by
        rw [Set.encard_insert_of_notMem fresh, count]
        norm_cast
    _ ≤ (census place q).encard := Set.encard_le_encard inside

/-- Kinds that exclude each other add up, by induction on how many there are. -/
theorem sum {p : Nat → σ → Prop} {n : Nat → Nat} (count : ∀ i, Counted place (p i) (n i))
    (apart : ∀ {i j x}, p i x → p j x → i = j) (m : Nat)
    : Counted place (fun x => ∃ i < m, p i x) (∑ i ∈ Finset.range m, n i) := by
  induction m with
  | zero => exact zero fun t ⟨i, bound, _⟩ => absurd bound (Nat.not_lt_zero i)
  | succ m ih =>
      have split
          : census place (fun x => ∃ i < m + 1, p i x)
            = census place (fun x => ∃ i < m, p i x) ∪ census place (p m) := by
        ext t
        constructor
        · rintro ⟨i, bound, here⟩
          rcases Nat.lt_succ_iff_lt_or_eq.mp bound with below | rfl
          · exact .inl ⟨i, below, here⟩
          · exact .inr here
        · rintro (⟨i, bound, here⟩ | here)
          · exact ⟨i, Nat.lt_succ_of_lt bound, here⟩
          · exact ⟨m, Nat.lt_succ_self m, here⟩
      have disjoint
          : Disjoint (census place (fun x => ∃ i < m, p i x)) (census place (p m)) := by
        refine Set.disjoint_left.mpr ?_
        rintro t ⟨i, bound, here⟩ last
        exact Nat.ne_of_lt bound (apart here last)
      rw [Counted, split, Set.encard_union_eq disjoint, ih, count m, Finset.sum_range_succ]
      norm_cast

variable [DecidableEq τ] {t : τ} {x : σ}

/-- A thread that is counted before and after its step, or neither, changes nothing. -/
theorem keep (count : Counted place p n) (same : p x ↔ p (place t))
    : Counted (Function.update place t x) p n := by
  have unchanged : census (Function.update place t x) p = census place p := by
    ext u
    rcases eq_or_ne u t with rfl | other
    · simp [census, same]
    · simp [census, Function.update_of_ne other]
  rw [Counted, unchanged]
  exact count

/-- One thread more. -/
theorem join (count : Counted place p n) (out : ¬ p (place t)) (now : p x)
    : Counted (Function.update place t x) p (n + 1) := by
  have grown : census (Function.update place t x) p = insert t (census place p) := by
    ext u
    rcases eq_or_ne u t with rfl | other
    · simp [census, now]
    · simp [census, other]
  have fresh : t ∉ census place p := out
  rw [Counted, grown, Set.encard_insert_of_notMem fresh, count]
  norm_cast

/-- One thread less. -/
theorem leave (count : Counted place p (n + 1)) (here : p (place t)) (gone : ¬ p x)
    : Counted (Function.update place t x) p n := by
  have shrunk : census place p = insert t (census (Function.update place t x) p) := by
    ext u
    rcases eq_or_ne u t with rfl | other
    · simp [census, here]
    · simp [census, other]
  have absent : t ∉ census (Function.update place t x) p := by simp [census, gone]
  rw [Counted, shrunk, Set.encard_insert_of_notMem absent] at count
  have count : (census (Function.update place t x) p).encard + 1 = (n : ℕ∞) + 1 := by
    simpa using count
  exact ENat.add_left_injective_of_ne_top (by simp) count

end Counted

end Concurrency
