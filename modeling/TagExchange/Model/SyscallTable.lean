import TagExchange.Tables.Patches

/-! `usctm.c`: the search for the system-call table in kernel memory, and the functions that put
system calls into the table and take them out, with what `start` and `end` do with them.
-/

namespace TagExchange

def PAGE_SIZE : Nat := 4096
def ADDRESS_MASK : Nat := 0xfffffffffffff000
def START : Nat := 0xffffffff00000000
def MAX_ADDR : Nat := 0xfffffffffff00000
def FIRST_NI_SYSCALL : Nat := 134
def SECOND_NI_SYSCALL : Nat := 174
def THIRD_NI_SYSCALL : Nat := 182
def FOURTH_NI_SYSCALL : Nat := 183
def FIFTH_NI_SYSCALL : Nat := 214
def SIXTH_NI_SYSCALL : Nat := 215
def SEVENTH_NI_SYSCALL : Nat := 236
def MAX_FREE : Nat := 15
def ENTRIES_TO_EXPLORE : Nat := 256

/-- The bit of `cr0` that protects read-only pages from the kernel. -/
def X86_CR0_WP : BitVec 64 := 1#64 <<< 16

-----------------------------------------------------------------------------------------
-- The search
-----------------------------------------------------------------------------------------

/-- Kernel memory as the search sees it: the word at an address, and whether `vtpmo` finds the page
of an address mapped.
-/
structure KernelMemory where
  word : Nat → Nat
  mapped : Nat → Bool

/-- The address of an entry of a table of words. -/
def entryAddress (table i : Nat) : Nat := table + 8 * i

namespace KernelMemory

/-- `addr[i]`. -/
def entry (m : KernelMemory) (addr i : Nat) : Nat := m.word (entryAddress addr i)

/-- `good_area`. -/
def goodArea (m : KernelMemory) (addr : Nat) : Bool :=
  (List.range' 1 (FIRST_NI_SYSCALL - 1)).all fun i => m.entry addr i != m.entry addr FIRST_NI_SYSCALL

/-- The pattern that `validate_page` looks for at an address. -/
def isTable (m : KernelMemory) (addr : Nat) : Bool :=
  m.entry addr FIRST_NI_SYSCALL &&& 0x3 == 0
  && m.entry addr FIRST_NI_SYSCALL != 0
  && m.entry addr FIRST_NI_SYSCALL > 0xffffffff00000000
  && m.entry addr FIRST_NI_SYSCALL == m.entry addr SECOND_NI_SYSCALL
  && m.entry addr FIRST_NI_SYSCALL == m.entry addr THIRD_NI_SYSCALL
  && m.entry addr FIRST_NI_SYSCALL == m.entry addr FOURTH_NI_SYSCALL
  && m.entry addr FIRST_NI_SYSCALL == m.entry addr FIFTH_NI_SYSCALL
  && m.entry addr FIRST_NI_SYSCALL == m.entry addr SIXTH_NI_SYSCALL
  && m.entry addr FIRST_NI_SYSCALL == m.entry addr SEVENTH_NI_SYSCALL
  && m.goodArea addr

/-- `validate_page`, from one of the offsets in the page: it stops where the table would need a
second page that is not mapped.
-/
def validateFrom (m : KernelMemory) (page : Nat) : List Nat → Option Nat
  | [] => none
  | i :: rest =>
      let newPage := page + i + SECOND_NI_SYSCALL * 8
      if page + PAGE_SIZE = newPage &&& ADDRESS_MASK ∧ m.mapped newPage = false then none
      else if m.isTable (page + i) then some (page + i)
      else m.validateFrom page rest

def validatePage (m : KernelMemory) (page : Nat) : Option Nat :=
  m.validateFrom page ((List.range (PAGE_SIZE / 8)).map (8 * ·))

/-- The loop of `syscall_table_finder` over the pages: as many as are left, from one of them. -/
def findTable (m : KernelMemory) : Nat → Nat → Option Nat
  | 0, _ => none
  | pages + 1, k =>
      if m.mapped k then
        match m.validatePage k with
        | some table => some table
        | none => m.findTable pages (k + 4096)
      else
        m.findTable pages (k + 4096)

theorem findTable_succ (m : KernelMemory) (pages k : Nat)
    : m.findTable (pages + 1) k
      = if m.mapped k then (m.validatePage k).or (m.findTable pages (k + 4096))
        else m.findTable pages (k + 4096) := by
  show (if m.mapped k then _ else _) = _
  cases m.validatePage k <;> rfl

end KernelMemory

/-- What the search leaves: `hacked_syscall_tbl_found`, `hacked_ni_syscall_found`, and the array
`free_entries`.
-/
structure Hacked where
  table : Nat
  niSyscall : Nat
  freeEntries : List Nat
deriving DecidableEq

/-- `syscall_table_finder`. The entries are explored in order until `MAX_FREE` free ones have been
found.
-/
def syscallTableFinder (m : KernelMemory) : Option Hacked :=
  (m.findTable ((MAX_ADDR - START) / 4096) START).map fun table => {
    table
    niSyscall := m.entry table FIRST_NI_SYSCALL
    freeEntries :=
      ((List.range ENTRIES_TO_EXPLORE).filter fun i =>
        m.entry table i == m.entry table FIRST_NI_SYSCALL).take MAX_FREE
  }

-----------------------------------------------------------------------------------------
-- The table
-----------------------------------------------------------------------------------------

/-- The words of kernel memory, the register `cr0`, and the variable `cr0` of the module. -/
structure Cpu where
  word : Nat → Nat
  cr0 : BitVec 64
  saved : BitVec 64

namespace Cpu

/-- `write_cr0_forced`. -/
def writeCr0Forced (c : Cpu) (val : BitVec 64) : Cpu := { c with cr0 := val }

/-- `protect_memory`. -/
def protectMemory (c : Cpu) : Cpu := c.writeCr0Forced c.saved

/-- `unprotect_memory`. -/
def unprotectMemory (c : Cpu) : Cpu := c.writeCr0Forced (c.saved &&& ~~~X86_CR0_WP)

/-- A store into the table, whose pages are read-only: it faults while they are protected. -/
def store (c : Cpu) (address value : Nat) : Option Cpu :=
  if c.cr0 &&& X86_CR0_WP = 0 then some { c with word := Function.update c.word address value }
  else none

end Cpu

variable (h : Hacked)

/-- The entries of the table. -/
def Hacked.entries (c : Cpu) (i : Nat) : Nat := c.word (entryAddress h.table i)

/-- `install_syscall`: the value returned, and what it leaves. -/
def installSyscall (c : Cpu) (sysCallFunction position : Nat) : Option (Nat × Cpu) :=
  if h.entries c position ≠ h.niSyscall then some (0, c)
  else
    let c := { c with saved := c.cr0 }
    (c.unprotectMemory.store (entryAddress h.table position) sysCallFunction).map fun c =>
      (1, c.protectMemory)

/-- `uninstall_syscall`. -/
def uninstallSyscall (c : Cpu) (sysCallFunction position : Nat) : Option (Nat × Cpu) :=
  if h.entries c position ≠ sysCallFunction then some (0, c)
  else
    let c := { c with saved := c.cr0 }
    (c.unprotectMemory.store (entryAddress h.table position) h.niSyscall).map fun c =>
      (1, c.protectMemory)

-----------------------------------------------------------------------------------------
-- Mounting and unmounting
-----------------------------------------------------------------------------------------

/-- The addresses of the four functions of the module. Two functions have two addresses: none of
them is the address of `sys_ni_syscall`.
-/
structure Handlers (niSyscall : Nat) where
  sysTagGet : Nat
  sysTagSend : Nat
  sysTagReceive : Nat
  sysTagCtl : Nat
  own
    : sysTagGet ≠ niSyscall ∧ sysTagSend ≠ niSyscall ∧ sysTagReceive ≠ niSyscall
      ∧ sysTagCtl ≠ niSyscall

/-- `free_entries[i]`; the elements that the search has not filled are 0. -/
def Hacked.freeEntry (i : Nat) : Nat := h.freeEntries.getD i 0

/-- The positions of the four functions in the table. -/
def Handlers.positions {h : Hacked} (f : Handlers h.niSyscall) : List (Nat × Nat) :=
  [(h.freeEntry 0, f.sysTagGet), (h.freeEntry 1, f.sysTagSend), (h.freeEntry 2, f.sysTagReceive),
    (h.freeEntry 3, f.sysTagCtl)]

/-- The calls of `install_syscall` in `start`; their results are ignored. -/
def installAll (c : Cpu) : List (Nat × Nat) → Option Cpu
  | [] => some c
  | (position, function) :: rest =>
      (installSyscall h c function position).bind fun r => installAll r.2 rest

/-- The calls of `uninstall_syscall` in `end`. -/
def uninstallAll (c : Cpu) : List (Nat × Nat) → Option Cpu
  | [] => some c
  | (position, function) :: rest =>
      (uninstallSyscall h c function position).bind fun r => uninstallAll r.2 rest

/-- Other kernel code writes into entries of the table. -/
def foreignWrites (c : Cpu) : List (Nat × Nat) → Cpu
  | [] => c
  | (i, value) :: rest =>
      foreignWrites { c with word := Function.update c.word (entryAddress h.table i) value } rest

end TagExchange
