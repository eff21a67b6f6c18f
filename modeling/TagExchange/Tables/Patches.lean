import Mathlib.Data.List.Basic
import Mathlib.Logic.Function.Basic

/-! Tables patched in place and restored: entries that hold a default value are replaced, other
parties write into the table, and the replacements that are still there are taken back.
-/

namespace Tables

variable {ι α : Type} [DecidableEq ι] [DecidableEq α]

/-- Replaces the value at an index if it is the expected one. -/
def swapAt (old new : α) (i : ι) (t : ι → α) : ι → α :=
  if t i = old then Function.update t i new else t

@[simp] theorem swapAt_self (old new : α) (i : ι) (t : ι → α)
    : swapAt old new i t i = if t i = old then new else t i := by
  unfold swapAt
  split
  · next same => simp
  · rfl

theorem swapAt_of_ne {old new : α} {i j : ι} (other : j ≠ i) (t : ι → α)
    : swapAt old new i t j = t j := by
  unfold swapAt
  split
  · exact Function.update_of_ne other ..
  · rfl

/-- Puts each value at its index, where the table holds the default value. -/
def patch (d : α) : List (ι × α) → (ι → α) → ι → α
  | [], t => t
  | (i, v) :: rest, t => patch d rest (swapAt d v i t)

/-- Puts the default value back at each index that still holds its value. -/
def unpatch (d : α) : List (ι × α) → (ι → α) → ι → α
  | [], t => t
  | (i, v) :: rest, t => unpatch d rest (swapAt v d i t)

/-- Writes of others, in their order. -/
def overwrite : List (ι × α) → (ι → α) → ι → α
  | [], t => t
  | (i, v) :: rest, t => overwrite rest (Function.update t i v)

/-- The last value written at an index. -/
def lastWrite : List (ι × α) → ι → Option α
  | [], _ => none
  | (i, v) :: rest, j => (lastWrite rest j).or (if j = i then some v else none)

variable {d : α} {ps ws : List (ι × α)} {i j : ι} {v : α} {t : ι → α}

-----------------------------------------------------------------------------------------
-- One entry
-----------------------------------------------------------------------------------------

/-- An index that is not patched keeps its value, by induction on the patches. -/
theorem patch_of_notMem (out : j ∉ ps.map Prod.fst) : patch d ps t j = t j := by
  induction ps generalizing t with
  | nil => rfl
  | cons p rest ih =>
      simp only [List.map_cons, List.mem_cons, not_or] at out
      rw [patch, ih out.2, swapAt_of_ne out.1]

theorem unpatch_of_notMem (out : j ∉ ps.map Prod.fst) : unpatch d ps t j = t j := by
  induction ps generalizing t with
  | nil => rfl
  | cons p rest ih =>
      simp only [List.map_cons, List.mem_cons, not_or] at out
      rw [unpatch, ih out.2, swapAt_of_ne out.1]

/-- A patched index holds its value, where the indices are distinct, by induction on the patches. -/
theorem patch_of_mem (distinct : (ps.map Prod.fst).Nodup) (member : (i, v) ∈ ps) (default : t i = d)
    : patch d ps t i = v := by
  induction ps generalizing t with
  | nil => cases member
  | cons p rest ih =>
      obtain ⟨first, distinct⟩ := List.nodup_cons.mp distinct
      rcases List.mem_cons.mp member with same | later
      · obtain rfl := same
        rw [patch, patch_of_notMem first, swapAt_self, if_pos default]
      · have other : i ≠ p.1 := by
          rintro rfl
          exact first (List.mem_map.mpr ⟨_, later, rfl⟩)
        exact ih distinct later ((swapAt_of_ne other t).trans default)

theorem unpatch_of_mem (distinct : (ps.map Prod.fst).Nodup) (member : (i, v) ∈ ps)
    : unpatch d ps t i = if t i = v then d else t i := by
  induction ps generalizing t with
  | nil => cases member
  | cons p rest ih =>
      obtain ⟨first, distinct⟩ := List.nodup_cons.mp distinct
      rcases List.mem_cons.mp member with same | later
      · obtain rfl := same
        rw [unpatch, unpatch_of_notMem first, swapAt_self]
      · have other : i ≠ p.1 := by
          rintro rfl
          exact first (List.mem_map.mpr ⟨_, later, rfl⟩)
        rw [unpatch, ih distinct later, swapAt_of_ne other]

omit [DecidableEq α] in
/-- An index holds what was last written there, by induction on the writes. -/
theorem overwrite_apply (ws : List (ι × α)) (t : ι → α) (j : ι)
    : overwrite ws t j = (lastWrite ws j).getD (t j) := by
  induction ws generalizing t with
  | nil => rfl
  | cons w rest ih =>
      rw [overwrite, ih, lastWrite]
      cases lastWrite rest j with
      | some u => rfl
      | none =>
          by_cases same : j = w.1
          · subst same
            simp
          · simp [same]

omit [DecidableEq α] in
theorem lastWrite_eq_none (quiet : ∀ v, (j, v) ∉ ws) : lastWrite ws j = none := by
  induction ws with
  | nil => rfl
  | cons w rest ih =>
      have other : j ≠ w.1 := fun same => quiet w.2 (by rw [same]; exact List.mem_cons_self ..)
      rw [lastWrite, ih fun v member => quiet v (List.mem_cons_of_mem _ member), if_neg other]
      rfl

-----------------------------------------------------------------------------------------
-- The round trip
-----------------------------------------------------------------------------------------

/-- The table after it was patched, written to by others, and restored. -/
def roundTrip (d : α) (ps ws : List (ι × α)) (t : ι → α) : ι → α :=
  unpatch d ps (overwrite ws (patch d ps t))

/-- An entry nobody else has written holds what it held before. -/
theorem roundTrip_of_quiet (distinct : (ps.map Prod.fst).Nodup) (default : ∀ p ∈ ps, t p.1 = d)
    (quiet : lastWrite ws j = none)
    : roundTrip d ps ws t j = t j := by
  by_cases patched : j ∈ ps.map Prod.fst
  · obtain ⟨p, member, rfl⟩ := List.mem_map.mp patched
    have here := default p member
    rw [roundTrip, unpatch_of_mem distinct member, overwrite_apply, quiet, Option.getD_none,
      patch_of_mem distinct member here, if_pos rfl, here]
  · rw [roundTrip, unpatch_of_notMem patched, overwrite_apply, quiet, Option.getD_none,
      patch_of_notMem patched]

/-- A patch is not there any more. -/
theorem roundTrip_ne (distinct : (ps.map Prod.fst).Nodup) (member : (i, v) ∈ ps) (own : v ≠ d)
    : roundTrip d ps ws t i ≠ v := by
  rw [roundTrip, unpatch_of_mem distinct member]
  split
  · exact own.symm
  · next other => exact other

/-- What others wrote last is kept, unless it is the patch of its index. -/
theorem roundTrip_of_written {u : α} (distinct : (ps.map Prod.fst).Nodup)
    (written : lastWrite ws j = some u) (foreign : (j, u) ∉ ps)
    : roundTrip d ps ws t j = u := by
  by_cases patched : j ∈ ps.map Prod.fst
  · obtain ⟨p, member, rfl⟩ := List.mem_map.mp patched
    have other : u ≠ p.2 := by
      rintro rfl
      exact foreign member
    rw [roundTrip, unpatch_of_mem distinct member, overwrite_apply, written, Option.getD_some,
      if_neg other]
  · rw [roundTrip, unpatch_of_notMem patched, overwrite_apply, written, Option.getD_some]

end Tables
