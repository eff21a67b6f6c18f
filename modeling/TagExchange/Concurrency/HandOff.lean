import Mathlib.Logic.Function.Basic
import Mathlib.Data.List.Basic
import Mathlib.Data.List.Nodup

/-! Mutexes that one context takes and another may release.
A lock taken by a thread is given back by that thread, or handed to a pending callback
that gives it back later. At any moment it has at most one of these owners.
-/

namespace Concurrency

variable {τ ι : Type}

/-- Every lock is held exactly when it has an owner: the one thread inside its critical
section, or the one pending callback it was handed to.
-/
structure Exclusive (locked : ι → Bool) (inside : τ → Option ι) (pending : List ι) : Prop where
  held : ∀ i, locked i = true ↔ (∃ t, inside t = some i) ∨ i ∈ pending
  one : ∀ {t u i}, inside t = some i → inside u = some i → t = u
  apart : ∀ {t i}, inside t = some i → i ∉ pending
  once : pending.Nodup

namespace Exclusive

variable {locked : ι → Bool} {inside : τ → Option ι} {pending : List ι}

/-- A free lock has no owner. -/
theorem not_inside (x : Exclusive locked inside pending) {i : ι} (free : locked i = false)
    (t : τ)
    : inside t ≠ some i := by
  intro h
  simp [(x.held i).mpr (.inl ⟨t, h⟩)] at free

theorem not_pending (x : Exclusive locked inside pending) {i : ι} (free : locked i = false)
    : i ∉ pending := by
  intro h
  simp [(x.held i).mpr (.inr h)] at free

/-- A thread that owns nothing takes a free lock. -/
theorem acquire [DecidableEq ι] [DecidableEq τ] (x : Exclusive locked inside pending)
    {t : τ} {i : ι}
    (idle : inside t = none) (free : locked i = false)
    : Exclusive (Function.update locked i true) (Function.update inside t (some i)) pending where
  held j := by
    rcases eq_or_ne j i with rfl | other
    · simp only [Function.update_self, true_iff]
      exact .inl ⟨t, by simp⟩
    · rw [Function.update_of_ne other, x.held j]
      refine or_congr_left ⟨?_, ?_⟩
      · rintro ⟨u, h⟩
        have apart : u ≠ t := by rintro rfl; simp [idle] at h
        exact ⟨u, by rw [Function.update_of_ne apart, h]⟩
      · rintro ⟨u, h⟩
        rcases eq_or_ne u t with rfl | apart
        · simp [other.symm] at h
        · exact ⟨u, by rwa [Function.update_of_ne apart] at h⟩
  one {u v j} hu hv := by
    rcases eq_or_ne u t with rfl | hut <;> rcases eq_or_ne v u with rfl | hvt
    · rfl
    · rw [Function.update_of_ne hvt] at hv
      obtain rfl : i = j := by simpa using hu
      exact absurd hv (x.not_inside free v)
    · rfl
    · rw [Function.update_of_ne hut] at hu
      rcases eq_or_ne v t with rfl | hvt
      · obtain rfl : i = j := by simpa using hv
        exact absurd hu (x.not_inside free u)
      · rw [Function.update_of_ne hvt] at hv
        exact x.one hu hv
  apart {u j} hu := by
    rcases eq_or_ne u t with rfl | hut
    · obtain rfl : i = j := by simpa using hu
      exact x.not_pending free
    · rw [Function.update_of_ne hut] at hu
      exact x.apart hu
  once := x.once

/-- A thread that still owns a lock after another has left its own is not that thread. -/
theorem inside_of_left [DecidableEq τ] {inside : τ → Option ι} {t u : τ} {i : ι}
    (now : Function.update inside t none u = some i)
    : u ≠ t ∧ inside u = some i := by
  rcases eq_or_ne u t with rfl | apart
  · simp at now
  · exact ⟨apart, by rwa [Function.update_of_ne apart] at now⟩

/-- The owning thread unlocks. -/
theorem release [DecidableEq ι] [DecidableEq τ] (x : Exclusive locked inside pending)
    {t : τ} {i : ι}
    (owner : inside t = some i)
    : Exclusive (Function.update locked i false) (Function.update inside t none) pending where
  held j := by
    rcases eq_or_ne j i with rfl | other
    · simp only [Function.update_self, Bool.false_eq_true, false_iff, not_or, not_exists]
      refine ⟨fun u now => ?_, x.apart owner⟩
      obtain ⟨apart, before⟩ := inside_of_left now
      exact apart (x.one before owner)
    · rw [Function.update_of_ne other, x.held j]
      refine or_congr_left ⟨?_, ?_⟩
      · rintro ⟨u, h⟩
        have apart : u ≠ t := by
          rintro rfl
          exact other (Option.some.inj (h.symm.trans owner))
        exact ⟨u, by rw [Function.update_of_ne apart, h]⟩
      · rintro ⟨u, now⟩
        exact ⟨u, (inside_of_left now).2⟩
  one hu hv := x.one (inside_of_left hu).2 (inside_of_left hv).2
  apart hu := x.apart (inside_of_left hu).2
  once := x.once

/-- The owning thread leaves the lock to a callback it registers. -/
theorem handOver [DecidableEq τ] (x : Exclusive locked inside pending) {t : τ} {i : ι}
    (owner : inside t = some i)
    : Exclusive locked (Function.update inside t none) (pending ++ [i]) where
  held j := by
    rw [x.held j]
    constructor
    · rintro (⟨u, h⟩ | h)
      · rcases eq_or_ne u t with rfl | apart
        · obtain rfl : i = j := Option.some.inj (owner.symm.trans h)
          exact .inr (by simp)
        · exact .inl ⟨u, by rw [Function.update_of_ne apart, h]⟩
      · exact .inr (by simp [h])
    · rintro (⟨u, now⟩ | h)
      · exact .inl ⟨u, (inside_of_left now).2⟩
      · rcases List.mem_append.mp h with h | h
        · exact .inr h
        · obtain rfl : j = i := by simpa using h
          exact .inl ⟨t, owner⟩
  one hu hv := x.one (inside_of_left hu).2 (inside_of_left hv).2
  apart {u j} hu := by
    obtain ⟨hut, before⟩ := inside_of_left hu
    have other : j ≠ i := by
      rintro rfl
      exact hut (x.one before owner)
    simp [x.apart before, other]
  once := by
    simp only [List.nodup_append, x.once, List.nodup_singleton, List.mem_singleton, true_and]
    rintro j hj k rfl rfl
    exact x.apart owner hj

/-- A pending callback gives its lock back and is over. -/
theorem settle [DecidableEq ι] (x : Exclusive locked inside pending) {n : Nat} {i : ι}
    (owner : pending[n]? = some i)
    : Exclusive (Function.update locked i false) inside (pending.eraseIdx n) := by
  obtain ⟨bound, found⟩ := List.getElem?_eq_some_iff.mp owner
  have member : i ∈ pending := List.mem_of_getElem? owner
  have gone : i ∉ pending.eraseIdx n := by
    rw [← found]
    exact fun h => by
      obtain ⟨m, hm, apart, same⟩ := List.mem_eraseIdx_iff_getElem.mp h
      exact apart ((x.once.getElem_inj_iff).mp same)
  exact {
    held := by
      intro j
      rcases eq_or_ne j i with rfl | other
      · simp only [Function.update_self, Bool.false_eq_true, false_iff, not_or, not_exists]
        exact ⟨fun u h => x.apart h member, gone⟩
      · rw [Function.update_of_ne other, x.held j]
        refine or_congr_right ⟨fun h => ?_, fun h => (List.eraseIdx_sublist pending n).mem h⟩
        obtain ⟨m, hm, same⟩ := List.getElem_of_mem h
        refine List.mem_eraseIdx_iff_getElem.mpr ⟨m, hm, ?_, same⟩
        rintro rfl
        exact other (same.symm.trans found)
    one := x.one
    apart := fun hu h => x.apart hu ((List.eraseIdx_sublist pending n).mem h)
    once := x.once.sublist (List.eraseIdx_sublist pending n)
  }

end Exclusive

end Concurrency
