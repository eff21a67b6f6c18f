import TagExchange.Properties.MountRoundTrip
import TagExchange.Tables.Search

/-! `syscall_table_finder` finds the lowest table that matches the pattern, and enough free entries
for the four functions of the module.
-/

namespace TagExchange

open Tables

/-- Kernel memory where `vtpmo` answers for pages. -/
def pagedMemory (word : Nat → Nat) (page : Nat → Bool) : KernelMemory where
  word
  mapped a := page (a / PAGE_SIZE)

variable {word : Nat → Nat} {page : Nat → Bool} {m : KernelMemory} {h : Hacked} {a k x : Nat}

theorem mapped_pagedMemory : (pagedMemory word page).mapped a = page (a / PAGE_SIZE) :=
  rfl

-----------------------------------------------------------------------------------------
-- Pages
-----------------------------------------------------------------------------------------

/-- The mask leaves the address of the page, by cases on the bit. -/
theorem and_addressMask (bound : x < 2 ^ 64) : x &&& ADDRESS_MASK = PAGE_SIZE * (x / PAGE_SIZE) := by
  have mask : ADDRESS_MASK = 2 ^ 12 * (2 ^ 52 - 1) := by decide
  have size : PAGE_SIZE = 2 ^ 12 := by decide
  rw [mask, size]
  apply Nat.eq_of_testBit_eq
  intro i
  rw [Nat.testBit_and, Nat.testBit_two_pow_mul, Nat.testBit_two_pow_mul,
    Nat.testBit_two_pow_sub_one, Nat.testBit_div_two_pow]
  by_cases low : i < 12
  · have outside : ¬ 12 ≤ i := by omega
    simp [outside]
  · have above : i - 12 + 12 = i := by omega
    by_cases high : i < 64
    · have inside : i - 12 < 52 := by omega
      simp [above, inside, Bool.and_comm]
    · have clear : x.testBit i = false :=
        Nat.testBit_lt_two_pow (lt_of_lt_of_le bound (Nat.pow_le_pow_right (by decide) (by omega)))
      simp [above, clear]

/-- The pattern of a table, in words. -/
structure Pattern (m : KernelMemory) (a : Nat) : Prop where
  nonzero : m.entry a FIRST_NI_SYSCALL ≠ 0
  lowBits : m.entry a FIRST_NI_SYSCALL % 4 = 0
  kernel : 0xffffffff00000000 < m.entry a FIRST_NI_SYSCALL
  same : ∀ i ∈ [174, 182, 183, 214, 215, 236], m.entry a i = m.entry a FIRST_NI_SYSCALL
  others : ∀ i, 1 ≤ i → i ≤ 133 → m.entry a i ≠ m.entry a FIRST_NI_SYSCALL

theorem goodArea_iff
    : m.goodArea a = true
      ↔ ∀ i, 1 ≤ i → i ≤ 133 → m.entry a i ≠ m.entry a FIRST_NI_SYSCALL := by
  simp only [KernelMemory.goodArea, List.all_eq_true, List.mem_range'_1, bne_iff_ne, and_imp]
  have last : 1 + (FIRST_NI_SYSCALL - 1) = 134 := by decide
  rw [last]
  constructor
  · intro all i low high
    exact all i low (by omega)
  · intro all i low high
    exact all i low (by omega)

theorem isTable_iff : m.isTable a = true ↔ Pattern m a := by
  have bits (w : Nat) : w &&& 0x3 = w % 4 := Nat.and_two_pow_sub_one_eq_mod w 2
  simp only [KernelMemory.isTable, Bool.and_eq_true, beq_iff_eq, bne_iff_ne, decide_eq_true_eq,
    goodArea_iff, bits]
  constructor
  · rintro ⟨⟨⟨⟨⟨⟨⟨⟨⟨lowBits, nonzero⟩, kernel⟩, second⟩, third⟩, fourth⟩, fifth⟩, sixth⟩,
      seventh⟩, others⟩
    refine ⟨nonzero, lowBits, kernel, ?_, others⟩
    intro i member
    simp only [List.mem_cons, List.not_mem_nil, or_false] at member
    rcases member with rfl | rfl | rfl | rfl | rfl | rfl
    · exact second.symm
    · exact third.symm
    · exact fourth.symm
    · exact fifth.symm
    · exact sixth.symm
    · exact seventh.symm
  · rintro ⟨nonzero, lowBits, kernel, same, others⟩
    simp only [List.forall_mem_cons] at same
    obtain ⟨second, third, fourth, fifth, sixth, seventh, -⟩ := same
    exact ⟨⟨⟨⟨⟨⟨⟨⟨⟨lowBits, nonzero⟩, kernel⟩, second.symm⟩, third.symm⟩, fourth.symm⟩, fifth.symm⟩,
      sixth.symm⟩, seventh.symm⟩, others⟩

-----------------------------------------------------------------------------------------
-- The search as one search of a list
-----------------------------------------------------------------------------------------

namespace KernelMemory

/-- The page of an address and the one of its word 174 are mapped. -/
def reachable (m : KernelMemory) (a : Nat) : Bool :=
  m.mapped a && m.mapped (entryAddress a SECOND_NI_SYSCALL)

/-- An address that the search accepts. -/
def accepted (m : KernelMemory) (a : Nat) : Bool := m.reachable a && m.isTable a

end KernelMemory

/-- All addresses that the search goes through. -/
def addresses : List Nat := List.range' START (512 * ((MAX_ADDR - START) / 4096)) 8

theorem mem_addresses : a ∈ addresses ↔ START ≤ a ∧ a < MAX_ADDR ∧ 8 ∣ a := by
  rw [addresses, List.mem_range']
  have first : START = 8 * 0x1fffffffe0000000 := by decide
  have last : MAX_ADDR = START + 8 * (512 * ((MAX_ADDR - START) / 4096)) := by decide
  constructor
  · rintro ⟨i, bound, rfl⟩
    refine ⟨by omega, by omega, ?_⟩
    rw [first, ← Nat.mul_add]
    exact Nat.dvd_mul_right ..
  · rintro ⟨low, high, d, rfl⟩
    exact ⟨d - 0x1fffffffe0000000, by omega, by omega⟩

theorem addresses_increasing : addresses.Pairwise (· < ·) :=
  List.pairwise_lt_range' 8 (by decide)

section Paged

variable {p i : Nat}

/-- The page of the word 174 is the page itself, or the next one. -/
theorem secondPage_eq (inside : i < PAGE_SIZE)
    : entryAddress (PAGE_SIZE * p + i) SECOND_NI_SYSCALL / PAGE_SIZE
      = if i < 2704 then p else p + 1 := by
  simp only [PAGE_SIZE, entryAddress, SECOND_NI_SYSCALL] at inside ⊢
  split <;> omega

theorem page_eq (inside : i < PAGE_SIZE) : (PAGE_SIZE * p + i) / PAGE_SIZE = p := by
  simp only [PAGE_SIZE] at inside ⊢
  omega

/-- `validate_page` stops where the table needs a page that is not mapped. -/
theorem breaks_iff (inside : i < PAGE_SIZE) (bound : p < 2 ^ 52 - 2)
    : PAGE_SIZE * p + PAGE_SIZE
          = (PAGE_SIZE * p + i + SECOND_NI_SYSCALL * 8) &&& ADDRESS_MASK
        ∧ (pagedMemory word page).mapped (PAGE_SIZE * p + i + SECOND_NI_SYSCALL * 8) = false
      ↔ 2704 ≤ i ∧ page (p + 1) = false := by
  have swap : PAGE_SIZE * p + i + SECOND_NI_SYSCALL * 8
      = entryAddress (PAGE_SIZE * p + i) SECOND_NI_SYSCALL := by
    simp only [entryAddress, SECOND_NI_SYSCALL]
  have small : entryAddress (PAGE_SIZE * p + i) SECOND_NI_SYSCALL < 2 ^ 64 := by
    simp only [PAGE_SIZE, entryAddress, SECOND_NI_SYSCALL] at inside ⊢
    omega
  rw [swap, and_addressMask small, mapped_pagedMemory, secondPage_eq inside]
  by_cases first : i < 2704
  · have outside : ¬ 2704 ≤ i := by omega
    simp [first, outside, PAGE_SIZE]
  · have above : 2704 ≤ i := by omega
    simp [first, above, Nat.mul_add]

theorem reachable_eq (inside : i < PAGE_SIZE)
    : (pagedMemory word page).reachable (PAGE_SIZE * p + i)
      = (page p && if i < 2704 then page p else page (p + 1)) := by
  rw [KernelMemory.reachable, mapped_pagedMemory, mapped_pagedMemory, page_eq inside,
    secondPage_eq inside]
  split <;> rfl

/-- Where `validate_page` does not stop. -/
theorem reachable_of_goes (inside : i < PAGE_SIZE) (here : page p = true)
    (goes : ¬ (2704 ≤ i ∧ page (p + 1) = false))
    : (pagedMemory word page).reachable (PAGE_SIZE * p + i) = true := by
  rw [reachable_eq inside, here]
  by_cases second : i < 2704
  · simp [second]
  · have next : page (p + 1) ≠ false := fun free => goes ⟨by omega, free⟩
    simpa [second] using next

/-- Within a page that is mapped, by induction on the offsets that are left: where the search of the
page stops, no later offset is reachable.
-/
theorem validateFrom_eq {offsets : List Nat} (here : page p = true) (bound : p < 2 ^ 52 - 2)
    (inside : ∀ i ∈ offsets, i < PAGE_SIZE) (increasing : offsets.Pairwise (· < ·))
    : (pagedMemory word page).validateFrom (PAGE_SIZE * p) offsets
      = (offsets.map (PAGE_SIZE * p + ·)).find? (pagedMemory word page).accepted := by
  induction offsets with
  | nil => rfl
  | cons i rest ih =>
      obtain ⟨first, increasing⟩ := List.pairwise_cons.mp increasing
      obtain ⟨low, inside⟩ := List.forall_mem_cons.mp inside
      rw [KernelMemory.validateFrom]
      simp only [breaks_iff low bound]
      by_cases stops : 2704 ≤ i ∧ page (p + 1) = false
      · rw [if_pos stops]
        symm
        apply List.find?_eq_none.mpr
        intro a member
        obtain ⟨j, later, rfl⟩ := List.mem_map.mp member
        have above : i ≤ j := by
          rcases List.mem_cons.mp later with rfl | later
          · exact le_rfl
          · exact (first j later).le
        have high : ¬ j < 2704 := by omega
        have low : j < PAGE_SIZE := by
          rcases List.mem_cons.mp later with rfl | later
          · exact low
          · exact inside j later
        simp [KernelMemory.accepted, reachable_eq low, high, stops.2]
      · have reaches : (pagedMemory word page).reachable (PAGE_SIZE * p + i) = true :=
          reachable_of_goes low here stops
        rw [if_neg stops, List.map_cons]
        cases matching : (pagedMemory word page).isTable (PAGE_SIZE * p + i) with
        | true =>
            rw [if_pos rfl, List.find?_cons_of_pos (by simp [KernelMemory.accepted, *])]
        | false =>
            rw [if_neg (by simp), List.find?_cons_of_neg (by simp [KernelMemory.accepted, *])]
            exact ih inside increasing

theorem mapped_page : (pagedMemory word page).mapped (PAGE_SIZE * p) = page p := by
  rw [mapped_pagedMemory, Nat.mul_div_cancel_left _ (by decide)]

theorem nextPage_eq : PAGE_SIZE * p + 4096 = PAGE_SIZE * (p + 1) := by
  simp only [PAGE_SIZE]
  omega

/-- The addresses of a page, and those of the pages behind it. -/
theorem addresses_split {pages : Nat}
    : List.range' (PAGE_SIZE * p) (512 * (pages + 1)) 8
      = List.range' (PAGE_SIZE * p) 512 8
        ++ List.range' (PAGE_SIZE * (p + 1)) (512 * pages) 8 := by
  have step : PAGE_SIZE * p + 4096 = PAGE_SIZE * p + 8 * 512 := rfl
  rw [← nextPage_eq, step, List.range'_append, Nat.mul_add, Nat.mul_one, Nat.add_comm]

theorem offsets_zero : (List.range (PAGE_SIZE / 8)).map (8 * ·) = List.range' 0 512 8 := by
  decide +kernel

/-- The offsets that `validate_page` goes through, as addresses. -/
theorem offsets_eq
    : List.range' (PAGE_SIZE * p) 512 8
      = ((List.range (PAGE_SIZE / 8)).map (8 * ·)).map (PAGE_SIZE * p + ·) := by
  rw [offsets_zero, List.map_add_range', Nat.add_zero]

theorem offsets_inside : ∀ i ∈ (List.range (PAGE_SIZE / 8)).map (8 * ·), i < PAGE_SIZE := by
  decide +kernel

theorem offsets_increasing : ((List.range (PAGE_SIZE / 8)).map (8 * ·)).Pairwise (· < ·) := by
  rw [offsets_zero]
  exact List.pairwise_lt_range' 8 (by decide)

theorem not_reachable_of_unmapped (word : Nat → Nat) (here : page p = false)
    (member : a ∈ List.range' (PAGE_SIZE * p) 512 8)
    : (pagedMemory word page).reachable a = false := by
  rw [offsets_eq] at member
  obtain ⟨i, offset, rfl⟩ := List.mem_map.mp member
  simp [reachable_eq (offsets_inside i offset), here]

/-- The searches of the pages are one search of their addresses, by induction on the pages that are
left.
-/
theorem findTable_eq {pages : Nat} (bound : p + pages ≤ 2 ^ 52 - 2)
    : (pagedMemory word page).findTable pages (PAGE_SIZE * p)
      = (List.range' (PAGE_SIZE * p) (512 * pages) 8).find? (pagedMemory word page).accepted := by
  induction pages generalizing p with
  | zero => rfl
  | succ pages ih =>
      rw [KernelMemory.findTable_succ, nextPage_eq, ih (by omega), addresses_split, List.find?_append]
      rw [mapped_page]
      cases here : page p with
      | true =>
          rw [if_pos rfl, KernelMemory.validatePage, offsets_eq]
          rw [validateFrom_eq here (by omega) offsets_inside offsets_increasing]
      | false =>
          have nothing
              : (List.range' (PAGE_SIZE * p) 512 8).find? (pagedMemory word page).accepted
                = none := by
            apply List.find?_eq_none.mpr
            intro a member
            simp [KernelMemory.accepted, not_reachable_of_unmapped word here member]
          rw [if_neg (by simp), nothing]
          rfl

end Paged

theorem search_eq
    : (pagedMemory word page).findTable ((MAX_ADDR - START) / 4096) START
      = addresses.find? (pagedMemory word page).accepted := by
  have first : START = PAGE_SIZE * 0xffffffff00000 := by decide
  rw [addresses, first]
  exact findTable_eq (by decide)

/-- An address in the range of the search where the pattern of a table is, in mapped memory as far
as the word 174.
-/
structure TableAt (m : KernelMemory) (a : Nat) : Prop where
  low : START ≤ a
  high : a < MAX_ADDR
  aligned : 8 ∣ a
  mapped : m.mapped a = true
  second
    : entryAddress a SECOND_NI_SYSCALL / PAGE_SIZE = a / PAGE_SIZE
      ∨ m.mapped (entryAddress a SECOND_NI_SYSCALL) = true
  pattern : Pattern m a

theorem tableAt_iff
    : TableAt (pagedMemory word page) a
      ↔ a ∈ addresses ∧ (pagedMemory word page).accepted a = true := by
  rw [mem_addresses, KernelMemory.accepted, KernelMemory.reachable, Bool.and_eq_true,
    Bool.and_eq_true, isTable_iff]
  constructor
  · rintro ⟨low, high, aligned, mapped, second, pattern⟩
    refine ⟨⟨low, high, aligned⟩, ⟨mapped, ?_⟩, pattern⟩
    rcases second with same | second
    · rw [mapped_pagedMemory] at mapped ⊢
      rw [same, mapped]
    · exact second
  · rintro ⟨⟨low, high, aligned⟩, ⟨mapped, second⟩, pattern⟩
    exact ⟨low, high, aligned, mapped, .inr second, pattern⟩

-----------------------------------------------------------------------------------------
-- What the search leaves
-----------------------------------------------------------------------------------------

/-- Each function of a list is installed at its position, one after the other: `install_syscall`
returns `SUCCESS`.
-/
def InstallsEach (h : Hacked) : Cpu → List (Nat × Nat) → Prop
  | _, [] => True
  | c, (position, function) :: rest =>
      ∃ c', installSyscall h c function position = some (1, c') ∧ InstallsEach h c' rest

/-- Where the entry is free, `install_syscall` returns `SUCCESS`. -/
theorem installSyscall_of_free {c : Cpu} {position : Nat} (function : Nat)
    (free : h.entries c position = h.niSyscall)
    : ∃ c',
        installSyscall h c function position = some (1, c')
        ∧ h.entries c' = swapAt h.niSyscall function position (h.entries c) := by
  obtain ⟨r, c', done, changes⟩ := installSyscall_spec h c function position
  have value : r = 1 := by
    rw [installSyscall, if_neg (not_not_intro free)] at done
    obtain ⟨_, -, result⟩ := Option.map_eq_some_iff.mp done
    exact (congrArg Prod.fst result).symm
  exact ⟨c', value ▸ done, changes.entries⟩

/-- Free entries at distinct positions all take their functions, by induction on the functions. -/
theorem installsEach_of_free {c : Cpu} {functions : List (Nat × Nat)}
    (distinct : (functions.map Prod.fst).Nodup)
    (free : ∀ p ∈ functions, h.entries c p.1 = h.niSyscall)
    : InstallsEach h c functions := by
  induction functions generalizing c with
  | nil => trivial
  | cons f rest ih =>
      obtain ⟨first, distinct⟩ := List.nodup_cons.mp distinct
      obtain ⟨here, free⟩ := List.forall_mem_cons.mp free
      obtain ⟨c', done, entries⟩ := installSyscall_of_free f.2 here
      refine ⟨c', done, ih distinct fun p member => ?_⟩
      have other : p.1 ≠ f.1 := by
        intro same
        exact first (same ▸ List.mem_map_of_mem member)
      rw [entries, swapAt_of_ne other, free p member]

/-- What `syscall_table_finder` leaves when it succeeds. -/
structure FindsLowest (m : KernelMemory) (h : Hacked) : Prop where
  table : IsLeast {a | TableAt m a} h.table
  niSyscall : h.niSyscall = m.entry h.table FIRST_NI_SYSCALL
  /-- The free entries are in increasing order, without repetition. -/
  increasing : h.freeEntries.Pairwise (· < ·)
  length
    : h.freeEntries.length
      = min MAX_FREE (Nat.count (fun i => m.entry h.table i = h.niSyscall) ENTRIES_TO_EXPLORE)
  /-- They are the first ones that there are. -/
  first
    : ∀ i,
        i ∈ h.freeEntries
        ↔ i < ENTRIES_TO_EXPLORE
          ∧ m.entry h.table i = h.niSyscall
          ∧ Nat.count (fun j => m.entry h.table j = h.niSyscall) i < MAX_FREE
  enough : 7 ≤ h.freeEntries.length
  /-- The functions of the module are installed, at positions of their own. -/
  installs
    : ∀ (f : Handlers h.niSyscall) (cr0 saved : BitVec 64),
        (f.positions.map Prod.fst).Nodup
        ∧ InstallsEach h ⟨m.word, cr0, saved⟩ f.positions

/-- The seven entries of the pattern are free. -/
theorem seven_free (pattern : Pattern m a)
    : 7 ≤ Nat.count (fun i => m.entry a i = m.entry a FIRST_NI_SYSCALL) ENTRIES_TO_EXPLORE := by
  have known
      : {134, 174, 182, 183, 214, 215, 236}
        ⊆ {i ∈ Finset.range ENTRIES_TO_EXPLORE | m.entry a i = m.entry a FIRST_NI_SYSCALL} := by
    intro i member
    have bound : i < ENTRIES_TO_EXPLORE := by
      revert i
      decide
    refine Finset.mem_filter.mpr ⟨Finset.mem_range.mpr bound, ?_⟩
    by_cases first : i = 134
    · exact congrArg (m.entry a) first
    · exact pattern.same i (by simpa [first] using member)
  rw [Nat.count_eq_card_filter_range]
  exact Finset.card_le_card known

/-- The search succeeds if and only if there is a table in mapped memory, and it leaves the lowest
one: it is the first match of the addresses, whose free entries the scan finds in order.
-/
theorem syscallTableFinder_spec (word : Nat → Nat) (page : Nat → Bool)
    : (syscallTableFinder (pagedMemory word page) = none
        ↔ ∀ a, ¬ TableAt (pagedMemory word page) a)
      ∧ ∀ h, syscallTableFinder (pagedMemory word page) = some h
          → FindsLowest (pagedMemory word page) h := by
  constructor
  · rw [syscallTableFinder, Option.map_eq_none_iff, search_eq, List.find?_eq_none]
    simp only [tableAt_iff, not_and]
  · intro h found
    have positions := fun f => positions_spec found f
    obtain ⟨table, search, rfl⟩ := Option.map_eq_some_iff.mp found
    rw [search_eq] at search
    have least : IsLeast {a | TableAt (pagedMemory word page) a} table := by
      simpa only [tableAt_iff] using isLeast_of_find? addresses_increasing search
    have length
        : (((List.range ENTRIES_TO_EXPLORE).filter fun i =>
              (pagedMemory word page).entry table i
                == (pagedMemory word page).entry table FIRST_NI_SYSCALL).take MAX_FREE).length
          = min MAX_FREE
              (Nat.count
                (fun i =>
                  (pagedMemory word page).entry table i
                    = (pagedMemory word page).entry table FIRST_NI_SYSCALL)
                ENTRIES_TO_EXPLORE) := by
      rw [List.length_take, ← List.countP_eq_length_filter, Nat.count]
      rfl
    exact {
      table := least
      niSyscall := rfl
      increasing :=
        (List.pairwise_lt_range.filter _).sublist (List.take_sublist ..)
      length
      first := by
        intro i
        simp only [mem_take_filter_range, beq_iff_eq]
      enough := by
        rw [length]
        exact le_min (by decide) (seven_free least.1.pattern)
      installs := by
        intro f cr0 saved
        obtain ⟨distinct, free⟩ := positions f
        exact ⟨distinct, installsEach_of_free distinct free⟩
    }

/-- The table at the first page is the lowest one. -/
theorem finds_table_at_first_page : FindsLowest memoryWithTable hackedOfMemory :=
  (syscallTableFinder_spec memoryWithTable.word fun _ => true).2 hackedOfMemory (by decide +kernel)

end TagExchange
