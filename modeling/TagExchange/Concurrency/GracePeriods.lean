import Mathlib.Algebra.BigOperators.Finprod
import TagExchange.Concurrency.Rcu

/-! Grace periods end: callbacks wait for open sections only, so one of them may run when no reader
is inside. What the callbacks have left to do adds up.
-/

namespace Concurrency.Rcu

variable {τ κ : Type} [DecidableEq τ] {r : Rcu τ κ} {n : Nat} {c : κ} {next : Option κ}

/-- No callback waits for a section that is not open. -/
def Sound (r : Rcu τ κ) : Prop :=
  ∀ p ∈ r.pending, ∀ t, p.waits.count t ≤ r.readers.count t

theorem Sound.readLock (x : r.Sound) (t : τ) : (r.readLock t).Sound := by
  intro p member u
  exact Nat.le_trans (x p member u) (List.count_le_count_cons ..)

/-- The closing of a section ends every wait for it. -/
theorem Sound.readUnlock (x : r.Sound) (t : τ) : (r.readUnlock t).Sound := by
  intro p member u
  obtain ⟨q, before, rfl⟩ := List.mem_map.mp member
  have old := x q before u
  rcases eq_or_ne u t with rfl | other
  · simp only [Rcu.readUnlock, List.count_erase_self]
    omega
  · simpa only [Rcu.readUnlock, List.count_erase_of_ne other] using old

theorem Sound.callRcu (x : r.Sound) (c : κ) : (r.callRcu c).Sound := by
  intro p member u
  rcases List.mem_append.mp member with before | new
  · exact x p before u
  · obtain rfl := List.mem_singleton.mp new
    exact Nat.le_refl _

theorem Sound.advance (x : r.Sound) (n : Nat) (next : Option κ) : (r.advance n next).Sound := by
  intro p member u
  cases next with
  | some c =>
      rcases List.mem_or_eq_of_mem_set member with before | rfl
      · exact x p before u
      · exact Nat.zero_le _
  | none => exact x p ((List.eraseIdx_sublist r.pending n).mem member) u

/-- When no section is open, every registered callback may run. -/
theorem Sound.ready (x : r.Sound) (nobody : r.readers = []) (waiting : r.callbacks ≠ [])
    : ∃ c, r.ready? 0 = some c := by
  cases pending : r.pending with
  | nil => exact absurd (by rw [callbacks, pending]; rfl) waiting
  | cons p rest =>
      have waitless : p.waits = [] := by
        refine List.eq_nil_iff_forall_not_mem.mpr fun t member => ?_
        have bound := x p (by rw [pending]; exact List.mem_cons_self ..) t
        rw [nobody] at bound
        exact absurd (Nat.lt_of_lt_of_le (List.count_pos_iff.mpr member) bound) (Nat.lt_irrefl 0)
      exact ⟨p.callback, by simp [ready?, pending, waitless]⟩

omit [DecidableEq τ] in
/-- The step of one callback exchanges what it has left to do, and nothing else. -/
theorem sum_advance (left : κ → Nat) (next : Option κ) (runs : r.ready? n = some c)
    : ((r.advance n next).callbacks.map left).sum + left c
      = (r.callbacks.map left).sum + next.elim 0 left := by
  obtain ⟨bound, here⟩ := List.getElem?_eq_some_iff.mp (callbacks_of_ready? r runs)
  have split : r.callbacks = r.callbacks.take n ++ c :: r.callbacks.drop (n + 1) := by
    rw [← here, ← List.drop_eq_getElem_cons bound, List.take_append_drop]
  have before : (r.callbacks.map left).sum
      = ((r.callbacks.take n).map left).sum + (left c + ((r.callbacks.drop (n + 1)).map left).sum) := by
    conv_lhs => rw [split]
    rw [List.map_append, List.sum_append, List.map_cons, List.sum_cons]
  rw [before]
  cases next with
  | some c' =>
      rw [callbacks_advance_some, List.set_eq_take_append_cons_drop, if_pos bound, List.map_append,
        List.sum_append, List.map_cons, List.sum_cons]
      show _ = _ + left c'
      omega
  | none =>
      rw [callbacks_advance_none, List.eraseIdx_eq_take_drop_succ, List.map_append, List.sum_append]
      show _ = _ + 0
      omega

end Concurrency.Rcu
