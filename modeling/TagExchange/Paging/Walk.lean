import Mathlib.Logic.Function.Basic

/-! The four-level page walk of x86-64: what the hardware reads to translate an address, and the
frame it finds. Only present bits and page sizes are looked at; permissions and reserved bits are
not.
-/

namespace Paging

/-- The present bit of an entry. -/
def present (e : BitVec 64) : Bool := e.getLsbD 0

/-- The bit that ends the walk early. -/
def large (e : BitVec 64) : Bool := e.getLsbD 7

/-- The physical frame that an entry names. -/
def frame (e : BitVec 64) : BitVec 40 := e.extractLsb' 12 40

/-- The address of the first byte of a frame. -/
def address (frame : BitVec 40) : BitVec 64 := (frame ++ 0#12).setWidth 64

/-- The index into the tables of a level; the last level is 0. -/
def index (va : BitVec 64) (level : Nat) : BitVec 64 :=
  (va.extractLsb' (12 + 9 * level) 9).setWidth 64

/-- Physical memory as words, and the register that names the first table. The bits of the register
above the addresses are reserved.
-/
structure PageTables where
  memory : BitVec 64 → BitVec 64
  cr3 : BitVec 64
  reserved : cr3.extractLsb' 52 12 = 0

namespace PageTables

variable (pt : PageTables) (va : BitVec 64)

/-- The entry of a table for an address. -/
def entry (table : BitVec 40) (level : Nat) : BitVec 64 :=
  pt.memory (address table + 8 * index va level)

def pml4e : BitVec 64 := pt.entry va (frame pt.cr3) 3

def pdpte : BitVec 64 := pt.entry va (frame (pt.pml4e va)) 2

def pde : BitVec 64 := pt.entry va (frame (pt.pdpte va)) 1

def pte : BitVec 64 := pt.entry va (frame (pt.pde va)) 0

/-- The 4 KiB frame that an address lies in. A mapping of 1 GiB or 2 MiB begins at a frame whose
number ends in zeros; the bits of the address are put in their place.
-/
def walk : Option (BitVec 40) :=
  if present (pt.pml4e va) = false then none
  else if present (pt.pdpte va) = false then none
  else if large (pt.pdpte va) then
    some ((pt.pdpte va).extractLsb' 30 22 ++ va.extractLsb' 12 18)
  else if present (pt.pde va) = false then none
  else if large (pt.pde va) then
    some ((pt.pde va).extractLsb' 21 31 ++ va.extractLsb' 12 9)
  else if present (pt.pte va) = false then none
  else some (frame (pt.pte va))

end PageTables

end Paging
