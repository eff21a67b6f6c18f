import TagExchange.Model.PageWalk

/-! Where `vtpmo` finds what the page walk of the hardware finds. -/

namespace TagExchange

open Paging

variable {e va : BitVec 64} {pt : PageTables}

-----------------------------------------------------------------------------------------
-- Masks
-----------------------------------------------------------------------------------------

/-- The bits of an entry between the address and the last one are zero. The hardware takes them
for flags, `PT_ADDRESS_MASK` for a part of the address.
-/
def Plain (e : BitVec 64) : Prop :=
  e.extractLsb' 52 11 = 0

instance (e : BitVec 64) : Decidable (Plain e) :=
  inferInstanceAs (Decidable (_ = _))

theorem getLsbD_mask {i : Nat} (bound : i < 64)
    : PT_ADDRESS_MASK.getLsbD i = decide (12 ≤ i ∧ i < 63) := by
  have all : ∀ i : Fin 64, PT_ADDRESS_MASK.getLsbD i = decide (12 ≤ i.val ∧ i.val < 63) := by
    decide
  exact all ⟨i, bound⟩

theorem getLsbD_addressMask {i : Nat} (bound : i < 64)
    : (BitVec.ofNat 64 ADDRESS_MASK).getLsbD i = decide (12 ≤ i) := by
  have all : ∀ i : Fin 64, (BitVec.ofNat 64 ADDRESS_MASK).getLsbD i = decide (12 ≤ i.val) := by
    decide
  exact all ⟨i, bound⟩

theorem getLsbD_indexMask {i : Nat} (bound : i < 64)
    : BitVec.getLsbD (0x1ff : BitVec 64) i = decide (i < 9) := by
  have all : ∀ i : Fin 64, BitVec.getLsbD (0x1ff : BitVec 64) i = decide (i.val < 9) := by decide
  exact all ⟨i, bound⟩

theorem and_valid_eq_zero_iff : e &&& VALID = 0 ↔ present e = false := by
  have bit : VALID = BitVec.twoPow 64 0 := by decide
  have some_ : BitVec.twoPow 64 0 ≠ 0#64 := by decide
  rw [bit, BitVec.and_twoPow, present]
  cases e.getLsbD 0 <;> simp [some_]

theorem and_lhMapping_eq_zero_iff : e &&& LH_MAPPING = 0 ↔ large e = false := by
  have bit : LH_MAPPING = BitVec.twoPow 64 7 := by decide
  have some_ : BitVec.twoPow 64 7 ≠ 0#64 := by decide
  rw [bit, BitVec.and_twoPow, large]
  cases e.getLsbD 7 <;> simp [some_]

/-- The macros of `vtpm.h` extract the indices of the walk, by cases on the bit. -/
theorem indexof_eq (level : Nat) (low : level ≤ 3)
    : va.sshiftRight (12 + 9 * level) &&& 0x1ff = index va level := by
  apply BitVec.eq_of_getLsbD_eq
  intro i bound
  rw [BitVec.getLsbD_and, getLsbD_indexMask bound, index, BitVec.getLsbD_setWidth,
    BitVec.getLsbD_extractLsb', BitVec.getLsbD_sshiftRight]
  by_cases inside : i < 9
  · have shifted : 12 + 9 * level + i < 64 := by omega
    simp [inside, shifted, bound]
  · simp [inside]

theorem getLsbD_of_plain {i : Nat} (plain : Plain e) (low : 52 ≤ i) (high : i < 63)
    : e.getLsbD i = false := by
  have bit := congrArg (BitVec.getLsbD · (i - 52)) plain
  have inside : i - 52 < 11 := by omega
  have index : 52 + (i - 52) = i := by omega
  simpa [inside, index] using bit

/-- The bits of an entry's address. -/
theorem getLsbD_address {i : Nat} (bound : i < 64)
    : (address (frame e)).getLsbD i = (decide (12 ≤ i ∧ i < 52) && e.getLsbD i) := by
  rw [address, BitVec.getLsbD_setWidth, BitVec.getLsbD_append, frame, BitVec.getLsbD_extractLsb']
  by_cases low : i < 12
  · have outside : ¬ 12 ≤ i := by omega
    simp [low, outside]
  · have above : 12 ≤ i := by omega
    have index : 12 + (i - 12) = i := by omega
    have inside : i - 12 < 40 ↔ i < 52 := by omega
    simp [low, bound, above, index, inside]

/-- The table that an entry names, by cases on the bit. -/
theorem and_mask_of_plain (plain : Plain e) : e &&& PT_ADDRESS_MASK = address (frame e) := by
  apply BitVec.eq_of_getLsbD_eq
  intro i bound
  rw [BitVec.getLsbD_and, getLsbD_mask bound, getLsbD_address bound]
  by_cases low : i < 52
  · have below : i < 63 := by omega
    simp [low, below, Bool.and_comm]
  · by_cases high : i < 63
    · simp [low, getLsbD_of_plain plain (by omega) high]
    · simp [low, high]

theorem and_addressMask_of_reserved (reserved : e.extractLsb' 52 12 = 0)
    : e &&& BitVec.ofNat 64 ADDRESS_MASK = address (frame e) := by
  apply BitVec.eq_of_getLsbD_eq
  intro i bound
  rw [BitVec.getLsbD_and, getLsbD_addressMask bound, getLsbD_address bound]
  by_cases low : i < 52
  · simp [low, Bool.and_comm]
  · have bit := congrArg (BitVec.getLsbD · (i - 52)) reserved
    have inside : i - 52 < 12 := by omega
    have index : 52 + (i - 52) = i := by omega
    have clear : e.getLsbD i = false := by simpa [inside, index] using bit
    simp [low, clear]

/-- The number that `vtpmo` returns has the bits of the entry from the address up. -/
theorem frameNumber_eq : (e &&& PT_ADDRESS_MASK) >>> 12 = (e.extractLsb' 12 51).setWidth 64 := by
  apply BitVec.eq_of_getLsbD_eq
  intro i bound
  rw [BitVec.getLsbD_ushiftRight, BitVec.getLsbD_and, BitVec.getLsbD_setWidth,
    BitVec.getLsbD_extractLsb']
  by_cases inside : i < 51
  · have below : 12 + i < 63 := by omega
    simp [inside, bound, getLsbD_mask (Nat.lt_trans below (by decide)), below]
  · by_cases last : i < 52
    · have outside : ¬ 12 + i < 63 := by omega
      simp [inside, getLsbD_mask (show 12 + i < 64 by omega), outside]
    · simp [inside, BitVec.getLsbD_of_ge e (12 + i) (by omega)]

/-- It is the number of a frame only where the bits above the address are zero. -/
theorem frameNumber_eq_iff {f : BitVec 40}
    : (e &&& PT_ADDRESS_MASK) >>> 12 = f.setWidth 64 ↔ Plain e ∧ frame e = f := by
  rw [frameNumber_eq]
  constructor
  · intro same
    have bits (i : Nat) (bound : i < 51) : e.getLsbD (12 + i) = f.getLsbD i := by
      have bit := congrArg (BitVec.getLsbD · i) same
      have below : i < 64 := by omega
      simpa [BitVec.getLsbD_setWidth, BitVec.getLsbD_extractLsb', below, bound] using bit
    constructor
    · apply BitVec.eq_of_getLsbD_eq
      intro i bound
      have bit := bits (40 + i) (by omega)
      have index : 12 + (40 + i) = 52 + i := by omega
      rw [index, BitVec.getLsbD_of_ge f (40 + i) (by omega)] at bit
      simpa [bound] using bit
    · apply BitVec.eq_of_getLsbD_eq
      intro i bound
      simpa [frame, bound] using bits i (by omega)
  · rintro ⟨plain, rfl⟩
    apply BitVec.eq_of_getLsbD_eq
    intro i bound
    rw [BitVec.getLsbD_setWidth, BitVec.getLsbD_setWidth, frame, BitVec.getLsbD_extractLsb',
      BitVec.getLsbD_extractLsb']
    by_cases inside : i < 40
    · have below : i < 51 := by omega
      simp [inside, below]
    · by_cases high : i < 51
      · simp [inside, getLsbD_of_plain plain (show 52 ≤ 12 + i by omega) (by omega)]
      · simp [inside, high]

/-- The frame that a 2 MiB mapping names is the one of the address where their last nine bits are
the same.
-/
theorem frame_eq_iff
    : frame e = e.extractLsb' 21 31 ++ va.extractLsb' 12 9
      ↔ e.extractLsb' 12 9 = va.extractLsb' 12 9 := by
  have parts : frame e = e.extractLsb' 21 31 ++ e.extractLsb' 12 9 := by
    apply BitVec.eq_of_getLsbD_eq
    intro i bound
    rw [frame, BitVec.getLsbD_append, BitVec.getLsbD_extractLsb', BitVec.getLsbD_extractLsb',
      BitVec.getLsbD_extractLsb']
    by_cases low : i < 9
    · simp [low, bound]
    · have inside : i - 9 < 31 := by omega
      have index : 21 + (i - 9) = 12 + i := by omega
      simp [low, bound, inside, index]
  rw [parts]
  constructor
  · intro same
    apply BitVec.eq_of_getLsbD_eq
    intro i bound
    have bit := congrArg (BitVec.getLsbD · i) same
    simpa only [BitVec.getLsbD_append, bound, if_true] using bit
  · intro same
    rw [same]

-----------------------------------------------------------------------------------------
-- The walk
-----------------------------------------------------------------------------------------

/-- What `vtpmo` is to return for what the hardware finds. -/
def frameOrNoMap : Option (BitVec 40) → BitVec 64
  | some f => f.setWidth 64
  | none => NO_MAP

/-- `vtpmo` returns what the hardware finds. -/
def Agrees (pt : PageTables) (va : BitVec 64) : Prop :=
  vtpmo pt.memory pt.cr3 va = frameOrNoMap (pt.walk va)

/-- The entries that the hardware goes on from name tables, at addresses that `vtpmo` reads right:
it does not leave the page tables.
-/
def StaysInTables (pt : PageTables) (va : BitVec 64) : Prop :=
  present (pt.pml4e va) = true
  → Plain (pt.pml4e va)
    ∧ (present (pt.pdpte va) = true
      → large (pt.pdpte va) = false
        ∧ Plain (pt.pdpte va)
        ∧ (present (pt.pde va) = true → large (pt.pde va) = false → Plain (pt.pde va)))

/-- The entry that ends the walk names the frame of the address itself: that of a 4 KiB page, or the
one frame of a 2 MiB page whose number is in the entry.
-/
def EndsAtFrame (pt : PageTables) (va : BitVec 64) : Prop :=
  present (pt.pml4e va) = true
  → present (pt.pdpte va) = true
  → present (pt.pde va) = true
  → if large (pt.pde va) then
      Plain (pt.pde va) ∧ (pt.pde va).extractLsb' 12 9 = va.extractLsb' 12 9
    else present (pt.pte va) = true → Plain (pt.pte va)

/-- As long as it stays in the page tables, `vtpmo` is right if and only if the last entry names the
frame of the address, by cases on the entries.
-/
theorem vtpmo_agrees_iff (stays : StaysInTables pt va) : Agrees pt va ↔ EndsAtFrame pt va := by
  have root : pt.memory ((pt.cr3 &&& BitVec.ofNat 64 ADDRESS_MASK) + 8 * pml4Indexof va)
      = pt.pml4e va := by
    rw [and_addressMask_of_reserved pt.reserved, pml4Indexof, indexof_eq 3 (by decide)]
    rfl
  rw [Agrees, PageTables.walk, EndsAtFrame]
  simp only [vtpmo, root, and_valid_eq_zero_iff]
  cases first : present (pt.pml4e va) with
  | false => simp [frameOrNoMap]
  | true =>
      obtain ⟨plain, stays⟩ := stays first
      have second : pt.memory ((pt.pml4e va &&& PT_ADDRESS_MASK) + 8 * pdpIndexof va)
          = pt.pdpte va := by
        rw [and_mask_of_plain plain, pdpIndexof, indexof_eq 2 (by decide)]
        rfl
      simp only [second]
      cases third : present (pt.pdpte va) with
      | false => simp [frameOrNoMap]
      | true =>
          obtain ⟨small, plain, stays⟩ := stays third
          have entry : pt.memory ((pt.pdpte va &&& PT_ADDRESS_MASK) + 8 * pdeIndexof va)
              = pt.pde va := by
            rw [and_mask_of_plain plain, pdeIndexof, indexof_eq 1 (by decide)]
            rfl
          simp only [entry, small]
          cases fourth : present (pt.pde va) with
          | false => simp [frameOrNoMap]
          | true =>
              simp only [ne_eq, and_lhMapping_eq_zero_iff]
              cases size : large (pt.pde va) with
              | true => simp [frameOrNoMap, frameNumber_eq_iff, frame_eq_iff]
              | false =>
                  have plain := stays fourth size
                  have last : pt.memory ((pt.pde va &&& PT_ADDRESS_MASK) + 8 * pteIndexof va)
                      = pt.pte va := by
                    rw [and_mask_of_plain plain, pteIndexof, indexof_eq 0 (by decide)]
                    rfl
                  simp only [last]
                  cases present (pt.pte va) with
                  | false => simp [frameOrNoMap]
                  | true => simp [frameOrNoMap, frameNumber_eq_iff]

/-- The kernel's text in a 2 MiB page. -/
def kernelText : PageTables where
  memory a := if a = 0x1ff8 then 0x2001 else if a = 0x2ff0 then 0x3001 else
    if a = 0x3040 then 0x200081 else 0
  cr3 := 0x1000
  reserved := by decide

/-- The first frame of the page. -/
theorem vtpmo_agrees_at_first_frame
    : kernelText.walk 0xffffffff81000000 = some 0x200 ∧ Agrees kernelText 0xffffffff81000000 := by
  have stays : StaysInTables kernelText 0xffffffff81000000 := by
    unfold StaysInTables
    decide +kernel
  refine ⟨by decide +kernel, (vtpmo_agrees_iff stays).mpr ?_⟩
  unfold EndsAtFrame
  decide +kernel

/-- For an address in the second frame of the page `vtpmo` returns the number of the first. -/
theorem vtpmo_returns_first_frame
    : kernelText.walk 0xffffffff81001000 = some 0x201
      ∧ vtpmo kernelText.memory kernelText.cr3 0xffffffff81001000 = 0x200
      ∧ ¬ Agrees kernelText 0xffffffff81001000 := by
  unfold Agrees
  decide +kernel

end TagExchange
