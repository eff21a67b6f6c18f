import Mathlib.Data.List.Perm.Subperm
import TagExchange.Model.SyscallTable

/-! Mounting the module and unmounting it again leaves the system-call table as it was, apart from
what other kernel code has written in the meantime.
-/

namespace TagExchange

open Tables

variable {m : KernelMemory} {h : Hacked} {c c' : Cpu} {function position r : Nat}

-----------------------------------------------------------------------------------------
-- One entry
-----------------------------------------------------------------------------------------

theorem entryAddress_inj {table i j : Nat} : entryAddress table i = entryAddress table j ↔ i = j := by
  unfold entryAddress
  omega

/-- A word stored at the address of an entry changes this entry. -/
theorem entries_update (c : Cpu) (i value : Nat)
    : h.entries { c with word := Function.update c.word (entryAddress h.table i) value }
      = Function.update (h.entries c) i value := by
  funext j
  rcases eq_or_ne j i with rfl | other
  · simp [Hacked.entries]
  · have apart : entryAddress h.table j ≠ entryAddress h.table i :=
      fun same => other (entryAddress_inj.mp same)
    simp [Hacked.entries, other, apart]

/-- Unprotected memory can be written. -/
theorem Cpu.store_unprotected (c : Cpu) (address value : Nat)
    : c.unprotectMemory.store address value
      = some { c.unprotectMemory with word := Function.update c.word address value } := by
  have clear : c.saved &&& ~~~X86_CR0_WP &&& X86_CR0_WP = 0 := by
    rw [BitVec.and_assoc, BitVec.and_comm (~~~X86_CR0_WP), BitVec.and_not_self]
    exact BitVec.and_zero
  exact if_pos clear

/-- What a function of `usctm.c` does to the machine: it changes one entry of the table, and leaves
`cr0` as it found it.
-/
structure Changes (h : Hacked) (c c' : Cpu) (entries : Nat → Nat) : Prop where
  entries : h.entries c' = entries
  cr0 : c'.cr0 = c.cr0

/-- `install_syscall` does not fail, and replaces `sys_ni_syscall` at its position. -/
theorem installSyscall_spec (h : Hacked) (c : Cpu) (function position : Nat)
    : ∃ r c',
        installSyscall h c function position = some (r, c')
        ∧ Changes h c c' (swapAt h.niSyscall function position (h.entries c)) := by
  unfold installSyscall swapAt
  by_cases free : h.entries c position = h.niSyscall
  · rw [if_neg (not_not_intro free), if_pos free]
    dsimp only
    rw [Cpu.store_unprotected]
    exact ⟨_, _, rfl, entries_update _ _ _, rfl⟩
  · rw [if_pos free, if_neg free]
    exact ⟨_, _, rfl, rfl, rfl⟩

/-- `uninstall_syscall` does not fail, and puts `sys_ni_syscall` back at its position. -/
theorem uninstallSyscall_spec (h : Hacked) (c : Cpu) (function position : Nat)
    : ∃ r c',
        uninstallSyscall h c function position = some (r, c')
        ∧ Changes h c c' (swapAt function h.niSyscall position (h.entries c)) := by
  unfold uninstallSyscall swapAt
  by_cases installed : h.entries c position = function
  · rw [if_neg (not_not_intro installed), if_pos installed]
    dsimp only
    rw [Cpu.store_unprotected]
    exact ⟨_, _, rfl, entries_update _ _ _, rfl⟩
  · rw [if_pos installed, if_neg installed]
    exact ⟨_, _, rfl, rfl, rfl⟩

-----------------------------------------------------------------------------------------
-- Four entries
-----------------------------------------------------------------------------------------

/-- The installations of `start` patch the table, by induction on the list of functions. -/
theorem installAll_spec (h : Hacked) (c : Cpu) (functions : List (Nat × Nat))
    : ∃ c',
        installAll h c functions = some c'
        ∧ Changes h c c' (patch h.niSyscall functions (h.entries c)) := by
  induction functions generalizing c with
  | nil => exact ⟨c, rfl, rfl, rfl⟩
  | cons f rest ih =>
      obtain ⟨r, c₁, first, entries, cr0⟩ := installSyscall_spec h c f.2 f.1
      obtain ⟨c₂, others, entries', cr0'⟩ := ih c₁
      refine ⟨c₂, ?_, ?_, cr0'.trans cr0⟩
      · rw [installAll, first]
        exact others
      · rw [entries', entries]
        rfl

theorem uninstallAll_spec (h : Hacked) (c : Cpu) (functions : List (Nat × Nat))
    : ∃ c',
        uninstallAll h c functions = some c'
        ∧ Changes h c c' (unpatch h.niSyscall functions (h.entries c)) := by
  induction functions generalizing c with
  | nil => exact ⟨c, rfl, rfl, rfl⟩
  | cons f rest ih =>
      obtain ⟨r, c₁, first, entries, cr0⟩ := uninstallSyscall_spec h c f.2 f.1
      obtain ⟨c₂, others, entries', cr0'⟩ := ih c₁
      refine ⟨c₂, ?_, ?_, cr0'.trans cr0⟩
      · rw [uninstallAll, first]
        exact others
      · rw [entries', entries]
        rfl

theorem foreignWrites_spec (h : Hacked) (c : Cpu) (writes : List (Nat × Nat))
    : Changes h c (foreignWrites h c writes) (overwrite writes (h.entries c)) := by
  induction writes generalizing c with
  | nil => exact ⟨rfl, rfl⟩
  | cons w rest ih =>
      obtain ⟨entries, cr0⟩ :=
        ih { c with word := Function.update c.word (entryAddress h.table w.1) w.2 }
      refine ⟨?_, cr0⟩
      rw [foreignWrites, entries, entries_update]
      rfl

-----------------------------------------------------------------------------------------
-- The free entries
-----------------------------------------------------------------------------------------

/-- A table that has been found matches the pattern, by induction on the offsets. -/
theorem KernelMemory.isTable_of_validateFrom {page table : Nat} {offsets : List Nat}
    (found : m.validateFrom page offsets = some table)
    : m.isTable table = true := by
  induction offsets with
  | nil => cases found
  | cons i rest ih =>
      simp only [validateFrom] at found
      split at found
      · cases found
      · split at found
        · next pattern =>
            obtain rfl := Option.some.inj found
            exact pattern
        · exact ih found

/-- By induction on the pages that are left. -/
theorem KernelMemory.isTable_of_findTable {pages k table : Nat}
    (found : m.findTable pages k = some table)
    : m.isTable table = true := by
  induction pages generalizing k with
  | zero => cases found
  | succ pages ih =>
      rw [findTable_succ] at found
      split at found
      · rcases Option.or_eq_some_iff.mp found with here | ⟨-, later⟩
        · rw [validatePage] at here
          exact isTable_of_validateFrom here
        · exact ih later
      · exact ih found

theorem exists_of_four_le {l : List Nat} (length : 4 ≤ l.length)
    : ∃ a b c d rest, l = a :: b :: c :: d :: rest := by
  rcases l with _ | ⟨a, _ | ⟨b, _ | ⟨c, _ | ⟨d, rest⟩⟩⟩⟩
  case cons.cons.cons.cons => exact ⟨a, b, c, d, rest, rfl⟩
  all_goals simp at length

/-- The first four free entries are four different positions that hold `sys_ni_syscall`: the seven
positions of the pattern are free.
-/
theorem freeEntries_spec (found : syscallTableFinder m = some h)
    : ∃ a b c d rest,
        h.freeEntries = a :: b :: c :: d :: rest
        ∧ [a, b, c, d].Nodup
        ∧ ∀ i ∈ [a, b, c, d], m.entry h.table i = h.niSyscall := by
  obtain ⟨table, search, rfl⟩ := Option.map_eq_some_iff.mp found
  have pattern := KernelMemory.isTable_of_findTable search
  simp only [KernelMemory.isTable, Bool.and_eq_true, beq_iff_eq] at pattern
  obtain ⟨⟨⟨⟨⟨⟨⟨-, second⟩, third⟩, fourth⟩, -⟩, -⟩, -⟩, -⟩ := pattern
  set free := (List.range ENTRIES_TO_EXPLORE).filter fun i =>
    m.entry table i == m.entry table FIRST_NI_SYSCALL with free_def
  have known : [FIRST_NI_SYSCALL, SECOND_NI_SYSCALL, THIRD_NI_SYSCALL, FOURTH_NI_SYSCALL] ⊆ free := by
    intro i member
    refine List.mem_filter.mpr ?_
    simp only [List.mem_cons, List.not_mem_nil, or_false] at member
    rcases member with rfl | rfl | rfl | rfl
    · exact ⟨by decide, beq_self_eq_true _⟩
    · exact ⟨by decide, beq_of_eq second.symm⟩
    · exact ⟨by decide, beq_of_eq third.symm⟩
    · exact ⟨by decide, beq_of_eq fourth.symm⟩
  have enough : 4 ≤ (free.take MAX_FREE).length := by
    have all : 4 ≤ free.length := (List.Nodup.subperm (by decide) known).length_le
    rw [List.length_take, MAX_FREE]
    omega
  have distinct : (free.take MAX_FREE).Nodup :=
    (List.nodup_range.filter _).sublist (List.take_sublist _ _)
  have holds : ∀ i ∈ free.take MAX_FREE, m.entry table i = m.entry table FIRST_NI_SYSCALL :=
    fun i member => eq_of_beq (List.mem_filter.mp (List.mem_of_mem_take member)).2
  obtain ⟨a, b, c, d, rest, shape⟩ := exists_of_four_le enough
  rw [shape] at distinct holds
  refine ⟨a, b, c, d, rest, shape, ?_, fun i member => holds i ?_⟩
  · exact distinct.sublist (List.sublist_append_left [a, b, c, d] rest)
  · exact List.mem_append_left rest member

/-- The positions of the four functions are distinct, and all free. -/
theorem positions_spec (found : syscallTableFinder m = some h) (f : Handlers h.niSyscall)
    : (f.positions.map Prod.fst).Nodup
      ∧ ∀ p ∈ f.positions, m.entry h.table p.1 = h.niSyscall := by
  obtain ⟨a, b, c, d, rest, shape, distinct, holds⟩ := freeEntries_spec found
  have positions
      : f.positions
        = [(a, f.sysTagGet), (b, f.sysTagSend), (c, f.sysTagReceive), (d, f.sysTagCtl)] := by
    simp only [Handlers.positions, Hacked.freeEntry, shape]
    rfl
  rw [positions]
  exact ⟨distinct, fun p member => holds p.1 (List.mem_map_of_mem member)⟩

theorem Handlers.ne_of_mem (f : Handlers h.niSyscall) {p : Nat × Nat} (member : p ∈ f.positions)
    : p.2 ≠ h.niSyscall := by
  obtain ⟨get, send, receive, ctl⟩ := f.own
  simp only [positions, List.mem_cons, List.not_mem_nil, or_false] at member
  rcases member with rfl | rfl | rfl | rfl <;> assumption

-----------------------------------------------------------------------------------------
-- The law
-----------------------------------------------------------------------------------------

/-- The table after unmounting, against the memory before mounting and the writes of others. -/
structure Restores (m : KernelMemory) (h : Hacked) (f : Handlers h.niSyscall)
    (foreign : List (Nat × Nat)) (c : Cpu)
    : Prop where
  /-- An entry that others have not written is as it was. -/
  untouched : ∀ i, (∀ v, (i, v) ∉ foreign) → h.entries c i = m.entry h.table i
  /-- The functions of the module are gone from their positions. -/
  removed : ∀ i v, (i, v) ∈ f.positions → h.entries c i ≠ v
  /-- What others have written last is still there, unless it is the function of its position. -/
  kept : ∀ i v, lastWrite foreign i = some v → (i, v) ∉ f.positions → h.entries c i = v

/-- A function of `usctm.c` changes its position only, and leaves `cr0` as it found it. -/
structure OneEntry (h : Hacked) (position : Nat) (c c' : Cpu) : Prop where
  others : ∀ i, i ≠ position → h.entries c' i = h.entries c i
  cr0 : c'.cr0 = c.cr0

theorem Changes.oneEntry {old new : Nat} (changes : Changes h c c' (swapAt old new position (h.entries c)))
    : OneEntry h position c c' :=
  ⟨fun i other => by rw [changes.entries, swapAt_of_ne other], changes.cr0⟩

/-- Whatever memory the search accepts and whatever others write into the table, mounting and then
unmounting restores the table.
-/
theorem mount_round_trip (found : syscallTableFinder m = some h) (f : Handlers h.niSyscall)
    (cr0 saved : BitVec 64) (foreign : List (Nat × Nat))
    : (∃ c₁ c₂,
        installAll h ⟨m.word, cr0, saved⟩ f.positions = some c₁
        ∧ uninstallAll h (foreignWrites h c₁ foreign) f.positions = some c₂
        ∧ Restores m h f foreign c₂
        ∧ c₁.cr0 = cr0
        ∧ c₂.cr0 = cr0)
      ∧ ∀ c function position,
          (∃ r c', installSyscall h c function position = some (r, c') ∧ OneEntry h position c c')
          ∧ ∃ r c',
              uninstallSyscall h c function position = some (r, c') ∧ OneEntry h position c c' := by
  obtain ⟨distinct, default⟩ := positions_spec found f
  refine ⟨?_, fun c function position => ⟨?_, ?_⟩⟩
  · obtain ⟨c₁, installed, patched⟩ := installAll_spec h ⟨m.word, cr0, saved⟩ f.positions
    have written := foreignWrites_spec h c₁ foreign
    obtain ⟨c₂, uninstalled, restored⟩ :=
      uninstallAll_spec h (foreignWrites h c₁ foreign) f.positions
    have entries
        : h.entries c₂ = roundTrip h.niSyscall f.positions foreign (m.entry h.table) := by
      rw [restored.entries, written.entries, patched.entries]
      rfl
    refine ⟨c₁, c₂, installed, uninstalled, ⟨?_, ?_, ?_⟩, patched.cr0, ?_⟩
    · intro i quiet
      rw [entries]
      exact roundTrip_of_quiet distinct default (lastWrite_eq_none quiet)
    · intro i v member
      rw [entries]
      exact roundTrip_ne distinct member (f.ne_of_mem member)
    · intro i v last other
      rw [entries]
      exact roundTrip_of_written distinct last other
    · exact (restored.cr0.trans written.cr0).trans patched.cr0
  · obtain ⟨r, c', done, changes⟩ := installSyscall_spec h c function position
    exact ⟨r, c', done, changes.oneEntry⟩
  · obtain ⟨r, c', done, changes⟩ := uninstallSyscall_spec h c function position
    exact ⟨r, c', done, changes.oneEntry⟩

-----------------------------------------------------------------------------------------
-- A table at the first page
-----------------------------------------------------------------------------------------

/-- A memory with a table at `START`: its free entries hold one address, the others hold zero. -/
def memoryWithTable : KernelMemory where
  word := fun a =>
    if a ∈ [134, 174, 182, 183, 214, 215, 236].map (entryAddress START) then 0xffffffff81000000
    else 0
  mapped := fun _ => true

/-- What the search finds there. -/
def hackedOfMemory : Hacked where
  table := START
  niSyscall := 0xffffffff81000000
  freeEntries := [134, 174, 182, 183, 214, 215, 236]

def handlersOfModule : Handlers hackedOfMemory.niSyscall where
  sysTagGet := 0xffffffffc0000000
  sysTagSend := 0xffffffffc0000100
  sysTagReceive := 0xffffffffc0000200
  sysTagCtl := 0xffffffffc0000300
  own := by decide

/-- Others replace one of the functions and write a fresh entry, and both writes are kept. -/
theorem mount_round_trip_of_table
    : ∃ c₁ c₂,
        installAll hackedOfMemory ⟨memoryWithTable.word, 0x80050033#64, 0#64⟩ handlersOfModule.positions
          = some c₁
        ∧ uninstallAll hackedOfMemory (foreignWrites hackedOfMemory c₁ [(174, 5), (300, 6)])
            handlersOfModule.positions
          = some c₂
        ∧ hackedOfMemory.entries c₂ 134 = 0xffffffff81000000
        ∧ hackedOfMemory.entries c₂ 174 = 5
        ∧ hackedOfMemory.entries c₂ 300 = 6 := by
  obtain ⟨⟨c₁, c₂, installed, uninstalled, restores, -, -⟩, -⟩ :=
    mount_round_trip (m := memoryWithTable) (by decide +kernel) handlersOfModule 0x80050033#64 0#64
      [(174, 5), (300, 6)]
  refine ⟨c₁, c₂, installed, uninstalled, ?_, ?_, ?_⟩
  · rw [restores.untouched 134 (by simp)]
    decide
  · exact restores.kept 174 5 rfl (by decide)
  · exact restores.kept 300 6 rfl (by decide)

end TagExchange
