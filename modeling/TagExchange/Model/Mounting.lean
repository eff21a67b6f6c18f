import TagExchange.Model.Machine
import TagExchange.Model.SyscallTable

/-! `start` and `end` step by step, beside the system calls of other threads: a thread enters a call
when the entry of the table for the call holds it.
-/

namespace TagExchange

open Concurrency

variable {τ : Type}

/-- What has become of a thing that `start` sets up and `end` takes down. -/
inductive Life
  | absent
  | live
  | dead
deriving DecidableEq

def Life.destroy : Life → Life
  | absent => absent
  | _ => dead

/-- Where `start` or `end` is, with the functions that are still to be put into the table or taken out
of it. `destroy_driver_and_all_devices` begins with `devices`, `init_device_driver` with `kmalloc`.
-/
inductive MountPc
  | finder
  | kzalloc
  | mutexInit
  | install (rest : List (Nat × Nat))
  | kmalloc
  | region
  | classCreate
  | unregisterRegion
  | deviceMutexes
  | mounted
  | failed
  | devices (i : Nat)
  | device (i : Nat) (pc : DestroyDevicePc)
  | destroyDeviceMutexes
  | classDestroy
  | unregister
  | kfree
  | services (i : Nat)
  | kzfree
  | mutexDestroy
  | uninstall (rest : List (Nat × Nat))
  | unmounted
deriving DecidableEq

/-- `end` has begun to free the services, or has done so. -/
def MountPc.freeing : MountPc → Bool
  | services _ | kzfree | mutexDestroy | uninstall _ | unmounted => true
  | _ => false

/-- The module as `start` and `end` see it: the array of the registry and its mutexes, the driver with
its mutexes, its numbers and its class, and whether `init_device_driver` has returned 0.
-/
structure Mounting (τ : Type) where
  base : State τ
  pc : MountPc
  cpu : Cpu
  registry : Life
  accessLocks : Life
  dm : Life
  deviceLocks : Life
  tsMajor : Life
  tsClass : Life
  initialised : Bool

/-- A step of the module or of its callers; the next step of `start` or `end`; the kernel calls `end`. -/
inductive MountEvent (τ : Type)
  | base (e : Event τ)
  | step (external : Nat)
  | unmount

/-- The entry of the table that a system call goes through, and the function that it should hold. -/
def Syscall.entry {h : Hacked} (f : Handlers h.niSyscall) : Syscall → Nat × Nat
  | tagGet .. => (h.freeEntry 0, f.sysTagGet)
  | tagSend .. => (h.freeEntry 1, f.sysTagSend)
  | tagReceive .. => (h.freeEntry 2, f.sysTagReceive)
  | tagCtl .. => (h.freeEntry 3, f.sysTagCtl)

namespace Mounting

variable (m : KernelMemory) (h : Hacked) (f : Handlers h.niSyscall)

def at_ (st : Mounting τ) (pc : MountPc) : Mounting τ := { st with pc }

/-- Before `start`: memory is as it was, and nothing is set up. The fields of the registry are those
that `start` gives them.
-/
def start : Mounting τ where
  base := .start
  pc := .finder
  cpu := ⟨m.word, X86_CR0_WP, 0⟩
  registry := .absent
  accessLocks := .absent
  dm := .absent
  deviceLocks := .absent
  tsMajor := .absent
  tsClass := .absent
  initialised := false

/-- A call is entered through its entry of the table. -/
def allows (st : Mounting τ) : Event τ → Bool
  | .call _ _ c => h.entries st.cpu (c.entry f).1 == (c.entry f).2
  | _ => true

/-- The next step of `start` or `end`. The results of `install_syscall`, `uninstall_syscall` and
`init_device_driver` are ignored. A NULL pointer stops the code.
-/
def advance [DecidableEq τ] (external : Nat) (st : Mounting τ) : Option (Mounting τ) :=
  match st.pc with
  -- `start`
  | .finder => some (st.at_ (if syscallTableFinder m = some h then .kzalloc else .failed))
  | .kzalloc =>
      some (if external = 0 then { st with registry := .live, pc := .mutexInit } else st.at_ .failed)
  | .mutexInit => some { st with accessLocks := .live, pc := .install f.positions }
  | .install [] => some (st.at_ .kmalloc)
  | .install ((position, function) :: rest) =>
      (installSyscall h st.cpu function position).map fun r =>
        { st with cpu := r.2, pc := .install rest }
  -- `init_device_driver` does not look at the result of `kmalloc`.
  | .kmalloc =>
      some { st with dm := if external = 0 then .live else .absent, pc := .region }
  | .region =>
      some (if external = 0 then { st with tsMajor := .live, pc := .classCreate } else st.at_ .mounted)
  | .classCreate =>
      some (if external = 0 then { st with tsClass := .live, pc := .deviceMutexes }
        else st.at_ .unregisterRegion)
  | .unregisterRegion => some { st with tsMajor := .dead, pc := .mounted }
  | .deviceMutexes =>
      if st.dm = .live then
        some { st with deviceLocks := .live, initialised := true, pc := .mounted }
      else none
  | .mounted | .failed | .unmounted => none
  -- `end`
  | .devices i =>
      some <| st.at_ <|
        if i < MAX_TAG_SERVICES then
          match st.base.kernel.tsm.allTagServices i with
          | some _ => .device i .lock
          | none => .devices (i + 1)
        else .destroyDeviceMutexes
  | .device i pc =>
      (st.base.kernel.exec external (tsDestroyCharDeviceFile i pc)).map fun r =>
        { st with
          base := { st.base with kernel := r.1 }
          pc := match r.2 with
            | .go pc => .device i pc
            | .back _ => .devices (i + 1) }
  | .destroyDeviceMutexes =>
      some { st with deviceLocks := st.deviceLocks.destroy, pc := .classDestroy }
  | .classDestroy => some { st with tsClass := st.tsClass.destroy, pc := .unregister }
  | .unregister => some { st with tsMajor := st.tsMajor.destroy, pc := .kfree }
  | .kfree => some { st with dm := st.dm.destroy, pc := .services 0 }
  | .services i =>
      if i < MAX_TAG_SERVICES then
        match st.base.kernel.tsm.allTagServices i with
        | some s =>
            (st.base.kernel.exec external (.kfree s ())).map fun r =>
              { st with base := { st.base with kernel := r.1 }, pc := .services (i + 1) }
        | none => some (st.at_ (.services (i + 1)))
      else some (st.at_ .kzfree)
  | .kzfree => some { st with registry := .dead, pc := .mutexDestroy }
  | .mutexDestroy => some { st with accessLocks := .dead, pc := .uninstall f.positions }
  | .uninstall [] => some (st.at_ .unmounted)
  | .uninstall ((position, function) :: rest) =>
      (uninstallSyscall h st.cpu function position).map fun r =>
        { st with cpu := r.2, pc := .uninstall rest }

/-- The kernel lets a module go whose reference count is zero. Freed memory keeps what was in it until
it is given out again.
-/
def step [DecidableEq τ] (st : Mounting τ) : MountEvent τ → Option (Mounting τ)
  | .base e =>
      if st.allows h f e then (st.base.step e).map fun base => { st with base } else none
  | .step external => st.advance m h f external
  | .unmount =>
      match st.pc with
      | .mounted => if st.base.kernel.moduleRefs = 0 then some (st.at_ (.devices 0)) else none
      | _ => none

end Mounting

/-- The life of the module as a machine, on a kernel with this memory. -/
def mounting (τ : Type) [DecidableEq τ] (m : KernelMemory) (h : Hacked) (f : Handlers h.niSyscall)
    : Machine (Mounting τ) (MountEvent τ) where
  start := .start m
  step := Mounting.step m h f

end TagExchange
