import TagExchange.Model.SyscallTable
import TagExchange.Paging.Walk

/-! `vtpm.c`: the page walk of `vtpmo`. Physical memory is read through `__va`, a word at a time. -/

namespace TagExchange

/-- The bit of presence of an entry. -/
def VALID : BitVec 64 := 0x1

def PT_ADDRESS_MASK : BitVec 64 := 0x7ffffffffffff000

/-- Large and huge pages. -/
def LH_MAPPING : BitVec 64 := 0x80

def NO_MAP : BitVec 64 := -1

def pml4Indexof (addr : BitVec 64) : BitVec 64 := addr.sshiftRight 39 &&& 0x1ff

def pdpIndexof (addr : BitVec 64) : BitVec 64 := addr.sshiftRight 30 &&& 0x1ff

def pdeIndexof (addr : BitVec 64) : BitVec 64 := addr.sshiftRight 21 &&& 0x1ff

def pteIndexof (addr : BitVec 64) : BitVec 64 := addr.sshiftRight 12 &&& 0x1ff

/-- `vtpmo`, with the value of the register `cr3`. A table is named by its physical address. -/
def vtpmo (memory : BitVec 64 → BitVec 64) (cr3 vaddr : BitVec 64) : BitVec 64 :=
  let pml4 := cr3 &&& BitVec.ofNat 64 ADDRESS_MASK
  let pgd := memory (pml4 + 8 * pml4Indexof vaddr)
  if pgd &&& VALID = 0 then NO_MAP
  else
    let pdp := pgd &&& PT_ADDRESS_MASK
    let pud := memory (pdp + 8 * pdpIndexof vaddr)
    if pud &&& VALID = 0 then NO_MAP
    else
      let pde := pud &&& PT_ADDRESS_MASK
      let pmd := memory (pde + 8 * pdeIndexof vaddr)
      if pmd &&& VALID = 0 then NO_MAP
      else if pmd &&& LH_MAPPING ≠ 0 then (pmd &&& PT_ADDRESS_MASK) >>> 12
      else
        let pte := pmd &&& PT_ADDRESS_MASK
        let last := memory (pte + 8 * pteIndexof vaddr)
        if last &&& VALID = 0 then NO_MAP
        else (last &&& PT_ADDRESS_MASK) >>> 12

end TagExchange
