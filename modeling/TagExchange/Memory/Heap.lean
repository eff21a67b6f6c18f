import Mathlib.Data.List.Basic
import Mathlib.Logic.Function.Basic

/-! A heap as the set of its live blocks. A block is named by the allocation that returns it, so
no two allocations share one; the heap counts how often each has been freed.
-/

namespace Memory

/-- The blocks that have been allocated, and how often each has been freed. -/
structure Heap (β : Type) where
  allocated : β → Bool
  frees : β → Nat

namespace Heap

variable {β : Type}

/-- Allocated and not freed. -/
def Live (h : Heap β) (b : β) : Prop :=
  h.allocated b = true ∧ h.frees b = 0

/-- Never allocated and never freed. -/
def Fresh (h : Heap β) (b : β) : Prop :=
  h.allocated b = false ∧ h.frees b = 0

theorem Fresh.not_live {h : Heap β} {b : β} (fresh : h.Fresh b) : ¬ h.Live b := by
  rintro ⟨allocated, -⟩
  simp [fresh.1] at allocated

instance (h : Heap β) (b : β) : Decidable (h.Live b) :=
  inferInstanceAs (Decidable (_ ∧ _))

variable [DecidableEq β] {h : Heap β} {b c : β}

def kmalloc (h : Heap β) (b : β) : Heap β :=
  { h with allocated := Function.update h.allocated b true }

def kfree (h : Heap β) (b : β) : Heap β :=
  { h with frees := Function.update h.frees b (h.frees b + 1) }

/-- Frees the blocks one after the other. -/
def kfreeAll (h : Heap β) (blocks : List β) : Heap β :=
  blocks.foldl kfree h

-----------------------------------------------------------------------------------------
-- Live blocks
-----------------------------------------------------------------------------------------

theorem live_kmalloc (fresh : h.Fresh b) : (h.kmalloc b).Live c ↔ c = b ∨ h.Live c := by
  rcases eq_or_ne c b with rfl | other
  · simp [Live, kmalloc, fresh.2]
  · simp [Live, kmalloc, other]

theorem Live.kmalloc (live : h.Live c) (b : β) : (h.kmalloc b).Live c := by
  rcases eq_or_ne c b with rfl | other
  · exact ⟨Function.update_self .., live.2⟩
  · exact ⟨(Function.update_of_ne other ..).trans live.1, live.2⟩

theorem live_kfree : (h.kfree b).Live c ↔ c ≠ b ∧ h.Live c := by
  rcases eq_or_ne c b with rfl | other
  · simp [Live, kfree]
  · simp [Live, kfree, other]

/-- What is freed is gone, and nothing else is, by induction on the blocks. -/
theorem live_kfreeAll {blocks : List β} : (h.kfreeAll blocks).Live c ↔ c ∉ blocks ∧ h.Live c := by
  induction blocks generalizing h with
  | nil => simp [kfreeAll]
  | cons b rest ih =>
      have step : (h.kfreeAll (b :: rest)).Live c ↔ c ∉ rest ∧ (h.kfree b).Live c := ih
      rw [step, live_kfree, List.mem_cons, not_or]
      tauto

/-- Freeing blocks that are live, each of them once, frees no block twice, by induction on the
blocks.
-/
theorem once_kfreeAll {blocks : List β} (once : ∀ c, h.frees c ≤ 1) (nodup : blocks.Nodup)
    (live : ∀ b ∈ blocks, h.Live b) (c : β)
    : (h.kfreeAll blocks).frees c ≤ 1 := by
  induction blocks generalizing h with
  | nil => exact once c
  | cons b rest ih =>
      obtain ⟨apart, nodup⟩ := List.nodup_cons.mp nodup
      refine ih (h := h.kfree b) (fun c => ?_) nodup fun c member => live_kfree.mpr ⟨?_, ?_⟩
      · rcases eq_or_ne c b with rfl | other
        · simp [kfree, (live c List.mem_cons_self).2]
        · simpa [kfree, other] using once c
      · rintro rfl
        exact apart member
      · exact live c (List.mem_cons_of_mem _ member)

-----------------------------------------------------------------------------------------
-- Fresh blocks
-----------------------------------------------------------------------------------------

theorem fresh_kmalloc (other : c ≠ b) : (h.kmalloc b).Fresh c ↔ h.Fresh c := by
  simp [Fresh, kmalloc, other]

theorem fresh_kfree (other : c ≠ b) : (h.kfree b).Fresh c ↔ h.Fresh c := by
  simp [Fresh, kfree, other]

theorem fresh_kfreeAll {blocks : List β} (other : c ∉ blocks)
    : (h.kfreeAll blocks).Fresh c ↔ h.Fresh c := by
  induction blocks generalizing h with
  | nil => rfl
  | cons b rest ih =>
      obtain ⟨first, later⟩ := not_or.mp (List.mem_cons.not.mp other)
      exact (ih later).trans (fresh_kfree first)

end Heap

end Memory
