import Mathlib.Order.Bounds.Basic
import TagExchange.Model.TableReads
import TagExchange.Properties.TableSearch

/-! Which words the search for the system-call table reads in pages that are not mapped: it checks
the page of the word 174 only, and reads as far as the word 255.
-/

namespace TagExchange

open Tables

variable {word : Nat → Nat} {page : Nat → Bool} {m m' : KernelMemory} {a k x : Nat}

-----------------------------------------------------------------------------------------
-- The reads determine the result
-----------------------------------------------------------------------------------------

namespace KernelMemory

theorem isTable_eq (m : KernelMemory) (addr : Nat)
    : m.isTable addr
      = (m.niSyscallAt addr && otherNiSyscalls.all (m.sameAt addr)
        && (List.range' 1 (FIRST_NI_SYSCALL - 1)).all fun i => !m.sameAt addr i) := by
  have swap (i : Nat) : (m.entry addr FIRST_NI_SYSCALL == m.entry addr i) = m.sameAt addr i :=
    BEq.comm
  simp only [isTable, swap, otherNiSyscalls, List.all_cons, List.all_nil, Bool.and_true,
    Bool.and_assoc, niSyscallAt]
  rfl

/-- Two memories that hold the same words where the one is read. -/
def SameWords (m m' : KernelMemory) (addresses : List Nat) : Prop :=
  ∀ a ∈ addresses, m.word a = m'.word a

theorem SameWords.sameAt {addr i : Nat} {indices : List Nat}
    (same : SameWords m m' ((FIRST_NI_SYSCALL :: indices).map (entryAddress addr)))
    (read : i ∈ indices)
    : m.sameAt addr i = m'.sameAt addr i := by
  have word (j : Nat) (member : j ∈ FIRST_NI_SYSCALL :: indices) : m.entry addr j = m'.entry addr j :=
    same _ (List.mem_map_of_mem member)
  rw [KernelMemory.sameAt, KernelMemory.sameAt, word i (List.mem_cons_of_mem _ read),
    word _ (List.mem_cons_self ..)]

/-- The pattern is decided by the words read for it, by cases on the comparison that fails. -/
theorem SameWords.isTable {addr : Nat} (same : SameWords m m' (m.readsAt addr))
    : m.isTable addr = m'.isTable addr := by
  have first : m.entry addr FIRST_NI_SYSCALL = m'.entry addr FIRST_NI_SYSCALL :=
    same _ (List.mem_map_of_mem (List.mem_cons_self ..))
  have head : m.niSyscallAt addr = m'.niSyscallAt addr := by
    simp only [niSyscallAt, first]
  rw [isTable_eq, isTable_eq, ← head]
  rw [readsAt, patternReads] at same
  cases shape : m.niSyscallAt addr with
  | false => rfl
  | true =>
      rw [shape, if_pos rfl] at same
      have others : otherNiSyscalls.all (m.sameAt addr) = otherNiSyscalls.all (m'.sameAt addr) :=
        all_congr_of_compared fun i member => same.sameAt (List.mem_append_left _ member)
      rw [← others]
      cases all : otherNiSyscalls.all (m.sameAt addr) with
      | false => rfl
      | true =>
          rw [all, if_pos rfl] at same
          rw [all_congr_of_compared fun i member =>
            congrArg not (same.sameAt (List.mem_append_right _ member))]

/-- By induction on the offsets that are left. -/
theorem SameWords.validateFrom {p : Nat} {offsets : List Nat} (mapped : m.mapped = m'.mapped)
    (same : SameWords m m' (m.pageReads p offsets))
    : m.validateFrom p offsets = m'.validateFrom p offsets := by
  induction offsets with
  | nil => rfl
  | cons i rest ih =>
      simp only [pageReads] at same
      simp only [KernelMemory.validateFrom, ← mapped]
      split
      · rfl
      · next goes =>
          rw [if_neg goes] at same
          have here := SameWords.isTable fun a member => same a (List.mem_append_left _ member)
          rw [← here]
          cases found : m.isTable (p + i) with
          | true => rfl
          | false =>
              refine ih fun a member => same a (List.mem_append_right _ ?_)
              rw [found]
              exact member

/-- By induction on the pages that are left. -/
theorem SameWords.findTable {pages : Nat} (mapped : m.mapped = m'.mapped)
    (same : SameWords m m' (m.searchReads pages k))
    : m.findTable pages k = m'.findTable pages k := by
  induction pages generalizing k with
  | zero => rfl
  | succ pages ih =>
      rw [searchReads] at same
      rw [findTable_succ, findTable_succ, ← mapped]
      split
      · next here =>
          rw [if_pos here] at same
          have first : m.validatePage k = m'.validatePage k :=
            SameWords.validateFrom mapped fun a member => same a (List.mem_append_left _ member)
          rw [← first]
          cases found : m.validatePage k with
          | some table => rw [Option.some_or, Option.some_or]
          | none =>
              rw [Option.none_or, Option.none_or]
              refine ih fun a member => same a (List.mem_append_right _ ?_)
              rw [found]
              exact member
      · next here =>
          rw [if_neg here] at same
          exact ih same

/-- No word is read that is not listed: the result of the search depends on the listed words and on
what `vtpmo` says only.
-/
theorem SameWords.syscallTableFinder (mapped : m.mapped = m'.mapped) (same : SameWords m m' m.reads)
    : TagExchange.syscallTableFinder m = TagExchange.syscallTableFinder m' := by
  have search : m.findTable ((MAX_ADDR - START) / 4096) START
      = m'.findTable ((MAX_ADDR - START) / 4096) START :=
    SameWords.findTable mapped fun a member => same a (List.mem_append_left _ member)
  rw [TagExchange.syscallTableFinder, TagExchange.syscallTableFinder, ← search]
  rw [reads] at same
  cases found : m.findTable ((MAX_ADDR - START) / 4096) START with
  | none => rfl
  | some table =>
      rw [found] at same
      have scan : SameWords m m' (m.scanReads table) :=
        fun a member => same a (List.mem_append_right _ member)
      have first : m.entry table FIRST_NI_SYSCALL = m'.entry table FIRST_NI_SYSCALL :=
        scan _ (List.mem_map_of_mem (List.mem_cons_self ..))
      have free
          : ((List.range ENTRIES_TO_EXPLORE).filter (m.sameAt table)).take MAX_FREE
            = ((List.range ENTRIES_TO_EXPLORE).filter (m'.sameAt table)).take MAX_FREE :=
        take_filter_congr fun i member => scan.sameAt member
      have entries
          : (⟨table, m.entry table FIRST_NI_SYSCALL,
                ((List.range ENTRIES_TO_EXPLORE).filter (m.sameAt table)).take MAX_FREE⟩ : Hacked)
            = ⟨table, m'.entry table FIRST_NI_SYSCALL,
                ((List.range ENTRIES_TO_EXPLORE).filter (m'.sameAt table)).take MAX_FREE⟩ := by
        rw [first, free]
      exact congrArg some entries

end KernelMemory

-----------------------------------------------------------------------------------------
-- What is read
-----------------------------------------------------------------------------------------

section Paged

variable {p : Nat}

/-- Below an entry in a mapped page all are mapped: a table lies in two pages at most. -/
theorem mapped_of_le {i j : Nat} (here : (pagedMemory word page).mapped a = true) (le : i ≤ j)
    (bound : j < ENTRIES_TO_EXPLORE)
    (mapped : (pagedMemory word page).mapped (entryAddress a j) = true)
    : (pagedMemory word page).mapped (entryAddress a i) = true := by
  rw [mapped_pagedMemory] at here mapped ⊢
  have cases_
      : entryAddress a i / PAGE_SIZE = a / PAGE_SIZE
        ∨ entryAddress a i / PAGE_SIZE = entryAddress a j / PAGE_SIZE := by
    simp only [entryAddress, PAGE_SIZE, ENTRIES_TO_EXPLORE] at bound ⊢
    omega
  rcases cases_ with same | same
  · rw [same]
    exact here
  · rw [same]
    exact mapped

/-- The reads of a page are those at its reachable addresses up to the first table, by induction on
the offsets that are left.
-/
theorem pageReads_eq {offsets : List Nat} (here : page p = true) (bound : p < 2 ^ 52 - 2)
    (inside : ∀ i ∈ offsets, i < PAGE_SIZE) (increasing : offsets.Pairwise (· < ·))
    : (pagedMemory word page).pageReads (PAGE_SIZE * p) offsets
      = ((compared (fun a => !(pagedMemory word page).accepted a)
            (offsets.map (PAGE_SIZE * p + ·))).filter (pagedMemory word page).reachable).flatMap
          (pagedMemory word page).readsAt := by
  induction offsets with
  | nil => rfl
  | cons i rest ih =>
      have all := inside
      obtain ⟨first, increasing⟩ := List.pairwise_cons.mp increasing
      obtain ⟨low, inside⟩ := List.forall_mem_cons.mp inside
      rw [KernelMemory.pageReads]
      simp only [breaks_iff low bound]
      by_cases stops : 2704 ≤ i ∧ page (p + 1) = false
      · have nothing
            : (compared (fun a => !(pagedMemory word page).accepted a)
                ((i :: rest).map (PAGE_SIZE * p + ·))).filter (pagedMemory word page).reachable
              = [] := by
          apply List.filter_eq_nil_iff.mpr
          intro a member
          obtain ⟨j, later, rfl⟩ := List.mem_map.mp (mem_of_compared member)
          have above : i ≤ j := by
            rcases List.mem_cons.mp later with rfl | later
            · exact le_rfl
            · exact (first j later).le
          have high : ¬ j < 2704 := by omega
          simp [reachable_eq (all j later), high, stops.2]
        rw [if_pos stops, nothing]
        rfl
      · rw [if_neg stops, List.map_cons, compared]
        have reaches : (pagedMemory word page).reachable (PAGE_SIZE * p + i) = true :=
          reachable_of_goes low here stops
        rw [List.filter_cons_of_pos reaches, List.flatMap_cons, KernelMemory.accepted, reaches,
          Bool.true_and]
        congr 1
        cases matching : (pagedMemory word page).isTable (PAGE_SIZE * p + i) with
        | true => rfl
        | false => exact ih inside increasing

/-- By induction on the pages that are left. -/
theorem searchReads_eq {pages : Nat} (bound : p + pages ≤ 2 ^ 52 - 2)
    : (pagedMemory word page).searchReads pages (PAGE_SIZE * p)
      = ((compared (fun a => !(pagedMemory word page).accepted a)
            (List.range' (PAGE_SIZE * p) (512 * pages) 8)).filter
          (pagedMemory word page).reachable).flatMap (pagedMemory word page).readsAt := by
  induction pages generalizing p with
  | zero => rfl
  | succ pages ih =>
      rw [KernelMemory.searchReads, nextPage_eq, ih (by omega), addresses_split, compared_append,
        List.filter_append, List.flatMap_append, mapped_page]
      cases here : page p with
      | true =>
          have search
              : (pagedMemory word page).validatePage (PAGE_SIZE * p)
                = (List.range' (PAGE_SIZE * p) 512 8).find? (pagedMemory word page).accepted := by
            rw [KernelMemory.validatePage, offsets_eq]
            exact validateFrom_eq here (by omega) offsets_inside offsets_increasing
          rw [if_pos rfl, search, pageReads_eq here (by omega) offsets_inside offsets_increasing,
            ← offsets_eq]
          cases found : (List.range' (PAGE_SIZE * p) 512 8).find?
              (pagedMemory word page).accepted with
          | none =>
              have goes
                  : ((List.range' (PAGE_SIZE * p) 512 8).all fun a =>
                      !(pagedMemory word page).accepted a)
                    = true := by
                simpa using List.find?_eq_none.mp found
              rw [goes, if_neg (by simp), if_pos rfl]
          | some table =>
              have stops
                  : ((List.range' (PAGE_SIZE * p) 512 8).all fun a =>
                      !(pagedMemory word page).accepted a)
                    = false := by
                have member := List.mem_of_find?_eq_some found
                have accepted := List.find?_some found
                rw [List.all_eq_false]
                exact ⟨table, member, by simp [accepted]⟩
              rw [stops, Option.isSome_some, if_pos rfl, if_neg (by simp), List.filter_nil,
                List.flatMap_nil]
      | false =>
          have unreached (a : Nat) (member : a ∈ List.range' (PAGE_SIZE * p) 512 8) :=
            not_reachable_of_unmapped word here member
          have nothing
              : (compared (fun a => !(pagedMemory word page).accepted a)
                  (List.range' (PAGE_SIZE * p) 512 8)).filter (pagedMemory word page).reachable
                = [] := by
            apply List.filter_eq_nil_iff.mpr
            intro a member
            simp [unreached a (mem_of_compared member)]
          have goes
              : ((List.range' (PAGE_SIZE * p) 512 8).all fun a =>
                  !(pagedMemory word page).accepted a)
                = true := by
            rw [List.all_eq_true]
            intro a member
            simp [KernelMemory.accepted, unreached a member]
          rw [if_neg (by simp), nothing, goes]
          rfl

end Paged

/-- An address where the search looks for the pattern. -/
structure Examined (m : KernelMemory) (a : Nat) : Prop where
  low : START ≤ a
  high : a < MAX_ADDR
  aligned : 8 ∣ a
  mapped : m.mapped a = true
  second : m.mapped (entryAddress a SECOND_NI_SYSCALL) = true
  noneBelow : ∀ b, TableAt m b → ¬ b < a

/-- The reads before the scan are those at the examined addresses. -/
theorem mem_searchReads
    : x ∈ (pagedMemory word page).searchReads ((MAX_ADDR - START) / 4096) START
      ↔ ∃ a, Examined (pagedMemory word page) a ∧ x ∈ (pagedMemory word page).readsAt a := by
  have first : START = PAGE_SIZE * 0xffffffff00000 := by decide
  have search
      : (pagedMemory word page).searchReads ((MAX_ADDR - START) / 4096) START
        = ((compared (fun a => !(pagedMemory word page).accepted a) addresses).filter
            (pagedMemory word page).reachable).flatMap (pagedMemory word page).readsAt := by
    rw [addresses, first]
    exact searchReads_eq (by decide)
  simp only [search, List.mem_flatMap, List.mem_filter, mem_compared addresses_increasing]
  constructor
  · rintro ⟨a, ⟨⟨member, below⟩, reaches⟩, read⟩
    obtain ⟨low, high, aligned⟩ := mem_addresses.mp member
    rw [KernelMemory.reachable, Bool.and_eq_true] at reaches
    refine ⟨a, ⟨low, high, aligned, reaches.1, reaches.2, fun b table less => ?_⟩, read⟩
    obtain ⟨member, accepted⟩ := tableAt_iff.mp table
    have refused := below b member less
    rw [accepted] at refused
    cases refused
  · rintro ⟨a, ⟨low, high, aligned, mapped, second, noneBelow⟩, read⟩
    refine ⟨a, ⟨⟨mem_addresses.mpr ⟨low, high, aligned⟩, fun b member less => ?_⟩, ?_⟩, read⟩
    · cases accepted : (pagedMemory word page).accepted b with
      | true => exact absurd less (noneBelow b (tableAt_iff.mpr ⟨member, accepted⟩))
      | false => rfl
    · rw [KernelMemory.reachable, mapped, second]
      rfl

-----------------------------------------------------------------------------------------
-- When it is in mapped memory
-----------------------------------------------------------------------------------------

/-- The words compared at an address are in mapped memory: all of them, or those before and at a
comparison that fails.
-/
def Contained (m : KernelMemory) (a : Nat) : Prop :=
  m.mapped (entryAddress a SEVENTH_NI_SYSCALL) = true
  ∨ m.niSyscallAt a = false
  ∨ ∃ i ∈ otherNiSyscalls, m.mapped (entryAddress a i) = true ∧ m.sameAt a i = false

/-- The scan of a table finds as many free entries as it wants before it comes to one that is not in
mapped memory.
-/
def ScanContained (m : KernelMemory) (table : Nat) : Prop :=
  ∀ i < ENTRIES_TO_EXPLORE,
    m.mapped (entryAddress table i) = false
    → MAX_FREE ≤ Nat.count (fun j => m.entry table j = m.entry table FIRST_NI_SYSCALL) i

/-- All words that the search reads are in mapped memory. -/
def ReadsMapped (m : KernelMemory) : Prop :=
  ∀ x ∈ m.reads, m.mapped x = true

theorem readsAt_mapped_iff (examined : Examined (pagedMemory word page) a)
    : (∀ x ∈ (pagedMemory word page).readsAt a, (pagedMemory word page).mapped x = true)
      ↔ Contained (pagedMemory word page) a := by
  have here := examined.mapped
  have below (i : Nat) (le : i ≤ SECOND_NI_SYSCALL)
      : (pagedMemory word page).mapped (entryAddress a i) = true :=
    mapped_of_le here le (by decide) examined.second
  have prefixed
      : otherNiSyscalls.Pairwise fun i j =>
          (pagedMemory word page).mapped (entryAddress a j) = true
          → (pagedMemory word page).mapped (entryAddress a i) = true := by
    have sorted : otherNiSyscalls.Pairwise fun i j => i ≤ j ∧ j < ENTRIES_TO_EXPLORE := by decide
    exact sorted.imp fun bounds mapped => mapped_of_le here bounds.1 bounds.2 mapped
  have chain := compared_inside_iff (p := (pagedMemory word page).sameAt a) prefixed
  have whole
      : (∀ i ∈ otherNiSyscalls, (pagedMemory word page).mapped (entryAddress a i) = true)
        ↔ (pagedMemory word page).mapped (entryAddress a SEVENTH_NI_SYSCALL) = true := by
    constructor
    · intro all
      exact all _ (by decide)
    · intro last i member
      have le : ∀ i ∈ otherNiSyscalls, i ≤ SEVENTH_NI_SYSCALL := by decide
      exact mapped_of_le here (le i member) (by decide) last
  rw [KernelMemory.readsAt, List.forall_mem_map, KernelMemory.patternReads, Contained,
    List.forall_mem_cons]
  cases shape : (pagedMemory word page).niSyscallAt a with
  | false => simpa using below _ (by decide)
  | true =>
      rw [if_pos rfl, List.forall_mem_append, chain, whole]
      have area
          : ∀ i ∈
              if otherNiSyscalls.all ((pagedMemory word page).sameAt a) then
                compared (fun i => !(pagedMemory word page).sameAt a i)
                  (List.range' 1 (FIRST_NI_SYSCALL - 1))
              else [],
              (pagedMemory word page).mapped (entryAddress a i) = true := by
        intro i member
        split at member
        · have bounds := List.mem_range'_1.mp (mem_of_compared member)
          exact below i (le_of_lt (lt_of_lt_of_le bounds.2 (by decide)))
        · cases member
      have first := below FIRST_NI_SYSCALL (by decide)
      simp only [first, true_and, Bool.true_eq_false, false_or]
      exact and_iff_left area

theorem scanReads_mapped_iff (table : TableAt (pagedMemory word page) a)
    : (∀ x ∈ (pagedMemory word page).scanReads a, (pagedMemory word page).mapped x = true)
      ↔ ScanContained (pagedMemory word page) a := by
  have first : (pagedMemory word page).mapped (entryAddress a FIRST_NI_SYSCALL) = true := by
    obtain ⟨-, accepted⟩ := tableAt_iff.mp table
    rw [KernelMemory.accepted, KernelMemory.reachable, Bool.and_eq_true, Bool.and_eq_true]
      at accepted
    exact mapped_of_le table.mapped (by decide) (by decide) accepted.1.2
  rw [KernelMemory.scanReads, List.forall_mem_map, List.forall_mem_cons]
  simp only [first, true_and, mem_scanned_range, KernelMemory.sameAt, beq_iff_eq]
  constructor
  · intro all i bound unmapped
    by_contra few
    rw [all i ⟨bound, not_le.mp few⟩] at unmapped
    cases unmapped
  · rintro enough i ⟨bound, few⟩
    cases mapped : (pagedMemory word page).mapped (entryAddress a i) with
    | true => rfl
    | false => exact absurd (enough i bound mapped) (not_le.mpr few)

/-- The search reads mapped memory only if and only if no examined address is compared beyond it,
and the scan of the lowest table ends before it.
-/
theorem reads_mapped_iff (word : Nat → Nat) (page : Nat → Bool)
    : ReadsMapped (pagedMemory word page)
      ↔ (∀ a, Examined (pagedMemory word page) a → Contained (pagedMemory word page) a)
        ∧ ∀ a, IsLeast {a | TableAt (pagedMemory word page) a} a
          → ScanContained (pagedMemory word page) a := by
  have least (a : Nat)
      : (pagedMemory word page).findTable ((MAX_ADDR - START) / 4096) START = some a
        ↔ IsLeast {a | TableAt (pagedMemory word page) a} a := by
    rw [search_eq]
    have of_found (b : Nat) (found : addresses.find? (pagedMemory word page).accepted = some b)
        : IsLeast {a | TableAt (pagedMemory word page) a} b := by
      simpa only [tableAt_iff] using isLeast_of_find? addresses_increasing found
    refine ⟨of_found a, fun least => ?_⟩
    cases found : addresses.find? (pagedMemory word page).accepted with
    | some b => rw [(of_found b found).unique least]
    | none =>
        obtain ⟨member, accepted⟩ := tableAt_iff.mp least.1
        exact absurd accepted (List.find?_eq_none.mp found a member)
  have search
      : (∀ x ∈ (pagedMemory word page).searchReads ((MAX_ADDR - START) / 4096) START,
          (pagedMemory word page).mapped x = true)
        ↔ ∀ a, Examined (pagedMemory word page) a → Contained (pagedMemory word page) a := by
    simp only [mem_searchReads]
    constructor
    · intro all a examined
      exact (readsAt_mapped_iff examined).mp fun x read => all x ⟨a, examined, read⟩
    · rintro contained x ⟨a, examined, read⟩
      exact (readsAt_mapped_iff examined).mpr (contained a examined) x read
  have scan
      : (∀ x ∈
          (((pagedMemory word page).findTable ((MAX_ADDR - START) / 4096) START).map
            (pagedMemory word page).scanReads).getD [],
          (pagedMemory word page).mapped x = true)
        ↔ ∀ a, IsLeast {a | TableAt (pagedMemory word page) a} a
          → ScanContained (pagedMemory word page) a := by
    simp only [← least]
    constructor
    · intro all a found
      rw [found] at all
      exact (scanReads_mapped_iff ((least a).mp found).1).mp all
    · intro contained
      cases found : (pagedMemory word page).findTable ((MAX_ADDR - START) / 4096) START with
      | none => simp
      | some a => exact (scanReads_mapped_iff ((least a).mp found).1).mpr (contained a found)
  rw [ReadsMapped, KernelMemory.reads, List.forall_mem_append, search, scan]

/-- One page is mapped, the first one of the search. Two of its last words are the words 134 and 174
of what could be a table.
-/
def lastWords : KernelMemory :=
  pagedMemory
    (fun a => if a = START + 3712 ∨ a = START + 4032 then 0xffffffff81000000 else 0)
    (· == START / PAGE_SIZE)

theorem entry_lastWords (b i : Nat)
    : lastWords.entry b i
      = if b + 8 * i = START + 3712 ∨ b + 8 * i = START + 4032 then 0xffffffff81000000 else 0 :=
  rfl

/-- The word 182 is compared as well, and it is in the next page, which is not mapped. -/
theorem reads_next_page
    : START + PAGE_SIZE ∈ lastWords.reads
      ∧ lastWords.mapped (START + PAGE_SIZE) = false
      ∧ ¬ ReadsMapped lastWords := by
  have noneBelow : ∀ b, TableAt lastWords b → ¬ b < START + 2640 := by
    intro b table below
    have nonzero := table.pattern.nonzero
    have same := table.pattern.same 174 (by decide)
    rw [← same] at nonzero
    have last : b + 8 * 174 = START + 3712 ∨ b + 8 * 174 = START + 4032 := by
      by_contra other
      rw [entry_lastWords, if_neg other] at nonzero
      exact nonzero rfl
    rw [same] at nonzero
    have first : b + 8 * 134 = START + 3712 ∨ b + 8 * 134 = START + 4032 := by
      by_contra other
      rw [FIRST_NI_SYSCALL, entry_lastWords, if_neg other] at nonzero
      exact nonzero rfl
    omega
  have examined : Examined lastWords (START + 2640) := {
    low := by decide
    high := by decide
    aligned := by decide
    mapped := by decide
    second := by decide
    noneBelow
  }
  have read : START + PAGE_SIZE ∈ lastWords.reads :=
    List.mem_append_left _ (mem_searchReads.mpr ⟨_, examined, by decide⟩)
  have unmapped : lastWords.mapped (START + PAGE_SIZE) = false := by decide
  refine ⟨read, unmapped, fun all => ?_⟩
  rw [all _ read] at unmapped
  cases unmapped

end TagExchange
