import TagExchange.Model.SyscallTable
import TagExchange.Tables.Search

/-! The words that `syscall_table_finder`, `validate_page` and `good_area` read. Each definition goes
through the function as the one of its result does, and stops where the function stops.
-/

namespace TagExchange

open Tables

/-- The entries that `validate_page` compares with the first one, in its order. -/
def otherNiSyscalls : List Nat :=
  [SECOND_NI_SYSCALL, THIRD_NI_SYSCALL, FOURTH_NI_SYSCALL, FIFTH_NI_SYSCALL, SIXTH_NI_SYSCALL,
    SEVENTH_NI_SYSCALL]

namespace KernelMemory

variable (m : KernelMemory)

/-- What `validate_page` asks of the first entry alone. -/
def niSyscallAt (addr : Nat) : Bool :=
  m.entry addr FIRST_NI_SYSCALL &&& 0x3 == 0
  && m.entry addr FIRST_NI_SYSCALL != 0
  && m.entry addr FIRST_NI_SYSCALL > 0xffffffff00000000

/-- An entry holds what the first one holds. -/
def sameAt (addr i : Nat) : Bool := m.entry addr i == m.entry addr FIRST_NI_SYSCALL

/-- The entries read for the pattern at an address. A comparison that fails ends the conjunction of
`validate_page`, and the loop of `good_area`.
-/
def patternReads (addr : Nat) : List Nat :=
  FIRST_NI_SYSCALL ::
    if m.niSyscallAt addr then
      compared (m.sameAt addr) otherNiSyscalls
      ++ if otherNiSyscalls.all (m.sameAt addr) then
          compared (fun i => !m.sameAt addr i) (List.range' 1 (FIRST_NI_SYSCALL - 1))
        else []
    else []

/-- The addresses of these entries. -/
def readsAt (addr : Nat) : List Nat := (m.patternReads addr).map (entryAddress addr)

/-- The reads of `validate_page`, from one of the offsets in the page. -/
def pageReads (page : Nat) : List Nat → List Nat
  | [] => []
  | i :: rest =>
      let newPage := page + i + SECOND_NI_SYSCALL * 8
      if page + PAGE_SIZE = newPage &&& ADDRESS_MASK ∧ m.mapped newPage = false then []
      else m.readsAt (page + i) ++ if m.isTable (page + i) then [] else pageReads page rest

/-- The reads of the loop over the pages. -/
def searchReads : Nat → Nat → List Nat
  | 0, _ => []
  | pages + 1, k =>
      if m.mapped k then
        m.pageReads k ((List.range (PAGE_SIZE / 8)).map (8 * ·))
        ++ if (m.validatePage k).isSome then [] else searchReads pages (k + 4096)
      else
        searchReads pages (k + 4096)

/-- The reads of the loop over the entries of the table that has been found. -/
def scanReads (table : Nat) : List Nat :=
  (FIRST_NI_SYSCALL
    :: scanned (m.sameAt table) MAX_FREE (List.range ENTRIES_TO_EXPLORE)).map (entryAddress table)

/-- The reads of `syscall_table_finder`. -/
def reads : List Nat :=
  m.searchReads ((MAX_ADDR - START) / 4096) START
  ++ ((m.findTable ((MAX_ADDR - START) / 4096) START).map m.scanReads).getD []

end KernelMemory

end TagExchange
