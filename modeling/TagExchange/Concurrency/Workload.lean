import Mathlib.Algebra.BigOperators.Finprod

/-! The work that a system of threads has left: the sum over all threads of what each of them has
left. All but finitely many have nothing left.
-/

namespace Concurrency

variable {τ : Type} {left : τ → Nat} {t : τ} {n : Nat}

/-- The work of all threads together. -/
noncomputable def workload (left : τ → Nat) : Nat :=
  ∑ᶠ t, left t

/-- The sum over any finite set of threads that contains the busy ones. -/
theorem workload_eq_sum {s : Finset τ} (busy : left.support ⊆ s)
    : workload left = ∑ t ∈ s, left t :=
  finsum_eq_sum_of_support_subset left busy

theorem workload_eq_zero (nobody : ∀ t, left t = 0) : workload left = 0 := by
  rw [workload, funext nobody, finsum_zero]

/-- One thread's work is exchanged for another amount. -/
theorem workload_update [DecidableEq τ] (busy : left.support.Finite)
    : workload (Function.update left t n) + left t = workload left + n := by
  obtain ⟨s, inside⟩ : ∃ s : Finset τ, left.support ⊆ s := ⟨busy.toFinset, by simp⟩
  have before : left.support ⊆ (insert t s : Finset τ) := by
    rw [Finset.coe_insert]
    exact inside.trans (Set.subset_insert ..)
  have after : (Function.update left t n).support ⊆ (insert t s : Finset τ) := by
    rw [Finset.coe_insert]
    intro u here
    rcases eq_or_ne u t with rfl | other
    · exact Set.mem_insert ..
    · exact .inr (inside (by simpa [Function.update_of_ne other] using here))
  have member : t ∈ insert t s := Finset.mem_insert_self ..
  rw [workload_eq_sum before, workload_eq_sum after, Finset.sum_update_of_mem member,
    ← Finset.add_sum_erase _ left member, Finset.sdiff_singleton_eq_erase]
  omega

theorem le_workload (busy : left.support.Finite) (t : τ) : left t ≤ workload left := by
  classical
  have exchanged := workload_update (t := t) (n := 0) busy
  omega

/-- One thread goes on to another state, and its work is exchanged for that of the new one. -/
theorem workload_comp_update {σ : Type} [DecidableEq τ] {work : σ → Nat} {state : τ → σ} {x : σ}
    (busy : (work ∘ state).support.Finite)
    : workload (work ∘ Function.update state t x) + work (state t)
      = workload (work ∘ state) + work x := by
  rw [Function.comp_update]
  exact workload_update busy

/-- Only one more thread may have work then. -/
theorem finite_comp_update {σ : Type} [DecidableEq τ] {work : σ → Nat} {state : τ → σ} {x : σ}
    (busy : (work ∘ state).support.Finite)
    : (work ∘ Function.update state t x).support.Finite := by
  refine (busy.insert t).subset fun u here => ?_
  rcases eq_or_ne u t with rfl | other
  · exact Set.mem_insert ..
  · exact .inr (by simpa [Function.update_of_ne other] using here)

/-- The work of all threads gets less with that of one of them. -/
theorem workload_lt [DecidableEq τ] (busy : left.support.Finite) (less : n < left t)
    : workload (Function.update left t n) < workload left := by
  have exchanged := workload_update (t := t) (n := n) busy
  omega

end Concurrency
