import Mathlib.Data.List.Nodup
import TagExchange.Model.Mounting
import TagExchange.Properties.MountRoundTrip

/-! The table of system calls against the module behind it: `start` puts the functions into the table
before the driver is initialised, and `end` takes them out when everything has been freed.
-/

namespace TagExchange

open Concurrency Tables

variable {τ : Type} [DecidableEq τ] {m : KernelMemory} {h : Hacked} {f : Handlers h.niSyscall}
  {past : History (Mounting τ) (MountEvent τ)} {st st' : Mounting τ} {e : MountEvent τ}
  {p : Nat × Nat} {rest : List (Nat × Nat)}

-----------------------------------------------------------------------------------------
-- Callable and ready
-----------------------------------------------------------------------------------------

/-- One of the four entries holds a function of the module. -/
def Mounting.Callable (f : Handlers h.niSyscall) (st : Mounting τ) : Prop :=
  ∃ p ∈ f.positions, ∃ q ∈ f.positions, h.entries st.cpu p.1 = q.2

/-- The array of the registry and the driver are there. -/
structure Mounting.Ready (st : Mounting τ) : Prop where
  registry : st.registry = .live
  dm : st.dm = .live
  deviceLocks : st.deviceLocks = .live
  tsMajor : st.tsMajor = .live
  tsClass : st.tsClass = .live

omit [DecidableEq τ] in
/-- Going on, and what the callers do, takes nothing away. -/
theorem Mounting.Ready.moved (ready : st.Ready) (base : State τ) (pc : MountPc)
    : { st with base, pc }.Ready :=
  ⟨ready.registry, ready.dm, ready.deviceLocks, ready.tsMajor, ready.tsClass⟩

/-- `start` has installed no function yet, or `init_device_driver` has returned 0 and `end` has not come
to the driver, or `end` has taken all functions out.
-/
def Mounting.InWindow (f : Handlers h.niSyscall) (st : Mounting τ) : Prop :=
  match st.pc with
  | .finder | .kzalloc | .mutexInit | .failed | .unmounted => True
  | .install rest => rest = f.positions
  | .mounted | .devices _ | .device _ _ | .destroyDeviceMutexes => st.initialised = true
  | .uninstall rest => rest = []
  | .kmalloc | .region | .classCreate | .unregisterRegion | .deviceMutexes | .classDestroy | .unregister
  | .kfree | .services _ | .kzfree | .mutexDestroy => False

-----------------------------------------------------------------------------------------
-- The functions in the table
-----------------------------------------------------------------------------------------

/-- The functions that are in the table at a point of `start` or `end`. -/
def MountPc.installs (p : Nat × Nat) : MountPc → Prop
  | .finder | .kzalloc | .mutexInit | .failed | .unmounted => False
  | .install rest => p ∉ rest
  | .uninstall rest => p ∈ rest
  | _ => True

/-- The functions that are still to be treated are the last ones. -/
def MountPc.Suffix (f : Handlers h.niSyscall) : MountPc → Prop
  | .install rest | .uninstall rest => rest <:+ f.positions
  | _ => True

/-- The positions hold the functions that are in the table, and `sys_ni_syscall` else. -/
structure InTable (f : Handlers h.niSyscall) (pc : MountPc) (cpu : Cpu) : Prop where
  installed : ∀ p ∈ f.positions, pc.installs p → h.entries cpu p.1 = p.2
  free : ∀ p ∈ f.positions, ¬ pc.installs p → h.entries cpu p.1 = h.niSyscall

theorem InTable.congr {pc pc' : MountPc} {cpu : Cpu} (x : InTable f pc cpu)
    (same : ∀ p ∈ f.positions, pc'.installs p ↔ pc.installs p)
    : InTable f pc' cpu :=
  ⟨fun p member now => x.installed p member ((same p member).mp now),
    fun p member not => x.free p member fun before => not ((same p member).mpr before)⟩

/-- The functions before the rest of the list are not in the rest. -/
theorem notMem_of_suffix (distinct : (f.positions.map Prod.fst).Nodup)
    (suffix : p :: rest <:+ f.positions)
    : p ∉ rest ∧ ∀ q ∈ f.positions, q ≠ p → q.1 ≠ p.1 := by
  constructor
  · have inner := (distinct.sublist (suffix.map Prod.fst).sublist)
    exact fun member => (List.nodup_cons.mp inner).1 (List.mem_map_of_mem member)
  · intro q member other same
    exact other (List.inj_on_of_nodup_map distinct member (suffix.subset (List.mem_cons_self ..)) same)

/-- `install_syscall` puts the next function into the table. -/
theorem InTable.install {cpu : Cpu} {r : Nat × Cpu} (x : InTable f (.install (p :: rest)) cpu)
    (distinct : (f.positions.map Prod.fst).Nodup) (suffix : p :: rest <:+ f.positions)
    (done : installSyscall h cpu p.2 p.1 = some r)
    : InTable f (.install rest) r.2 := by
  obtain ⟨out, apart⟩ := notMem_of_suffix distinct suffix
  have here := suffix.subset (List.mem_cons_self ..)
  obtain ⟨r', cpu', same, changes⟩ := installSyscall_spec h cpu p.2 p.1
  obtain rfl := Option.some.inj (done.symm.trans same)
  have now : h.entries cpu' p.1 = p.2 := by
    have before := x.free p here (not_not_intro (List.mem_cons_self ..))
    rw [changes.entries, swapAt, if_pos before, Function.update_self]
  have kept {q : Nat × Nat} (member : q ∈ f.positions) (other : q ≠ p)
      : h.entries cpu' q.1 = h.entries cpu q.1 := by
    rw [changes.entries, swapAt_of_ne (apart q member other)]
  refine ⟨fun q member installed => ?_, fun q member free => ?_⟩
  · rcases eq_or_ne q p with rfl | other
    · exact now
    · rw [kept member other]
      exact x.installed q member fun inside => (List.mem_cons.mp inside).elim other installed
  · have inside : q ∈ rest := not_not.mp free
    have other : q ≠ p := fun same => out (same ▸ inside)
    rw [kept member other]
    exact x.free q member (not_not_intro (List.mem_cons_of_mem _ inside))

/-- `uninstall_syscall` takes the next function out of the table. -/
theorem InTable.uninstall {cpu : Cpu} {r : Nat × Cpu} (x : InTable f (.uninstall (p :: rest)) cpu)
    (distinct : (f.positions.map Prod.fst).Nodup) (suffix : p :: rest <:+ f.positions)
    (done : uninstallSyscall h cpu p.2 p.1 = some r)
    : InTable f (.uninstall rest) r.2 := by
  obtain ⟨out, apart⟩ := notMem_of_suffix distinct suffix
  have here := suffix.subset (List.mem_cons_self ..)
  obtain ⟨r', cpu', same, changes⟩ := uninstallSyscall_spec h cpu p.2 p.1
  obtain rfl := Option.some.inj (done.symm.trans same)
  have now : h.entries cpu' p.1 = h.niSyscall := by
    have before := x.installed p here (List.mem_cons_self ..)
    rw [changes.entries, swapAt, if_pos before, Function.update_self]
  have kept {q : Nat × Nat} (member : q ∈ f.positions) (other : q ≠ p)
      : h.entries cpu' q.1 = h.entries cpu q.1 := by
    rw [changes.entries, swapAt_of_ne (apart q member other)]
  refine ⟨fun q member inside => ?_, fun q member outside => ?_⟩
  · have other : q ≠ p := fun same => out (same ▸ inside)
    rw [kept member other]
    exact x.installed q member (List.mem_cons_of_mem _ inside)
  · rcases eq_or_ne q p with rfl | other
    · exact now
    · rw [kept member other]
      exact x.free q member fun inside => (List.mem_cons.mp inside).elim other outside

-----------------------------------------------------------------------------------------
-- What is set up
-----------------------------------------------------------------------------------------

/-- What is set up at a point of `start` or `end`. -/
def Mounting.SetUp (st : Mounting τ) : Prop :=
  match st.pc with
  | .finder | .kzalloc => st.deviceLocks = .absent ∧ st.initialised = false
  | .mutexInit | .install _ | .kmalloc | .region | .unregisterRegion =>
      st.registry = .live ∧ st.deviceLocks = .absent ∧ st.initialised = false
  | .classCreate =>
      st.registry = .live ∧ st.deviceLocks = .absent ∧ st.initialised = false ∧ st.tsMajor = .live
  | .deviceMutexes => st.registry = .live ∧ st.deviceLocks = .absent ∧ st.tsMajor = .live ∧ st.tsClass = .live
  | .mounted | .devices _ | .device _ _ | .destroyDeviceMutexes =>
      (st.initialised = true → st.Ready) ∧ (st.initialised = false → st.deviceLocks = .absent)
  | .classDestroy | .unregister | .kfree | .services _ | .kzfree | .mutexDestroy | .uninstall _ =>
      st.deviceLocks ≠ .live
  | .failed | .unmounted => True

theorem Life.destroy_ne_live (l : Life) : l.destroy ≠ .live := by
  cases l <;> decide

/-- What holds of every state in the life of the module. -/
structure Mounted (f : Handlers h.niSyscall) (st : Mounting τ) : Prop where
  table : InTable f st.pc st.cpu
  suffix : st.pc.Suffix f
  setUp : st.SetUp

omit [DecidableEq τ] in
theorem Mounted.start (found : syscallTableFinder m = some h) : Mounted f (Mounting.start (τ := τ) m) where
  table := ⟨fun _ _ never => never.elim, fun p member _ => (positions_spec found f).2 p member⟩
  suffix := trivial
  setUp := ⟨rfl, rfl⟩

/-- Every step of `start` and `end` keeps it, by cases on the point. -/
theorem Mounted.advance {external : Nat} (x : Mounted f st)
    (distinct : (f.positions.map Prod.fst).Nodup) (step : st.advance m h f external = some st')
    : Mounted f st' := by
  obtain ⟨base, pc, cpu, registry, accessLocks, dm, deviceLocks, tsMajor, tsClass, initialised⟩ := st
  obtain ⟨table, suffix, setUp⟩ := x
  have iff_ {P : Prop} (p : Nat × Nat) (_ : p ∈ f.positions) : P ↔ P := Iff.rfl
  cases pc with
  | finder =>
      cases step
      simp only [Mounting.at_]
      split
      · exact ⟨table.congr iff_, trivial, setUp⟩
      · exact ⟨table.congr iff_, trivial, trivial⟩
  | kzalloc =>
      cases step
      split
      · exact ⟨table.congr iff_, trivial, rfl, setUp⟩
      · exact ⟨table.congr iff_, trivial, trivial⟩
  | mutexInit =>
      cases step
      exact ⟨table.congr fun p member => iff_of_false (not_not_intro member) id, List.suffix_refl _, setUp⟩
  | install rest =>
      cases rest with
      | nil =>
          cases step
          exact ⟨table.congr fun p _ => iff_of_true trivial List.not_mem_nil, trivial, setUp⟩
      | cons p rest =>
          obtain ⟨r, done, rfl⟩ := Option.map_eq_some_iff.mp step
          exact ⟨table.install distinct suffix done, (List.suffix_cons ..).trans suffix, setUp⟩
  | kmalloc => cases step; exact ⟨table.congr iff_, trivial, setUp⟩
  | region =>
      cases step
      obtain ⟨registry, locks, initialised⟩ := setUp
      split
      · exact ⟨table.congr iff_, trivial, registry, locks, initialised, rfl⟩
      · exact ⟨table.congr iff_, trivial, fun yes => absurd (initialised.symm.trans yes) (by decide),
          fun _ => locks⟩
  | classCreate =>
      cases step
      obtain ⟨registry, locks, initialised, major⟩ := setUp
      split
      · exact ⟨table.congr iff_, trivial, registry, locks, major, rfl⟩
      · exact ⟨table.congr iff_, trivial, registry, locks, initialised⟩
  | unregisterRegion =>
      cases step
      obtain ⟨registry, locks, initialised⟩ := setUp
      exact ⟨table.congr iff_, trivial, fun yes => absurd (initialised.symm.trans yes) (by decide),
        fun _ => locks⟩
  | deviceMutexes =>
      obtain ⟨dm, same⟩ := Option.ite_none_right_eq_some.mp step
      cases same
      obtain ⟨registry, locks, major, tsClass⟩ := setUp
      exact ⟨table.congr iff_, trivial, fun _ => ⟨registry, dm, rfl, major, tsClass⟩,
        fun no => Bool.noConfusion no⟩
  | mounted | failed | unmounted => cases step
  | devices i =>
      cases step
      obtain ⟨ready, not⟩ := setUp
      simp only [Mounting.at_]
      split
      · split <;> exact ⟨table.congr iff_, trivial, fun yes => (ready yes).moved _ _, not⟩
      · exact ⟨table.congr iff_, trivial, fun yes => (ready yes).moved _ _, not⟩
  | device i pc =>
      obtain ⟨⟨k, next⟩, -, rfl⟩ := Option.map_eq_some_iff.mp step
      obtain ⟨ready, not⟩ := setUp
      cases next <;> exact ⟨table.congr iff_, trivial, fun yes => (ready yes).moved _ _, not⟩
  | destroyDeviceMutexes => cases step; exact ⟨table.congr iff_, trivial, Life.destroy_ne_live _⟩
  | classDestroy | unregister | kfree => cases step; exact ⟨table.congr iff_, trivial, setUp⟩
  | services i =>
      simp only [Mounting.advance] at step
      split at step
      · split at step
        · cases step
          exact ⟨table.congr iff_, trivial, setUp⟩
        · cases step
          exact ⟨table.congr iff_, trivial, setUp⟩
      · cases step
        exact ⟨table.congr iff_, trivial, setUp⟩
  | kzfree => cases step; exact ⟨table.congr iff_, trivial, setUp⟩
  | mutexDestroy =>
      cases step
      exact ⟨table.congr fun p member => iff_of_true member trivial, List.suffix_refl _, setUp⟩
  | uninstall rest =>
      cases rest with
      | nil =>
          cases step
          exact ⟨table.congr fun p _ => iff_of_false id List.not_mem_nil, trivial, trivial⟩
      | cons p rest =>
          obtain ⟨r, done, rfl⟩ := Option.map_eq_some_iff.mp step
          exact ⟨table.uninstall distinct suffix done, (List.suffix_cons ..).trans suffix, setUp⟩

/-- Every event keeps it: the callers of the module change neither the table nor what is set up. -/
theorem Mounted.step (x : Mounted f st) (distinct : (f.positions.map Prod.fst).Nodup)
    (step : st.step m h f e = some st')
    : Mounted f st' := by
  cases e with
  | base e =>
      obtain ⟨-, same⟩ := Option.ite_none_right_eq_some.mp step
      obtain ⟨base, -, rfl⟩ := Option.map_eq_some_iff.mp same
      refine ⟨x.table, x.suffix, ?_⟩
      have setUp := x.setUp
      unfold Mounting.SetUp at setUp ⊢
      dsimp only
      split at setUp <;> first | exact setUp | skip
      all_goals exact ⟨fun yes => (setUp.1 yes).moved _ _, setUp.2⟩
  | step external => exact x.advance distinct step
  | unmount =>
      simp only [Mounting.step] at step
      split at step
      · next here =>
          obtain ⟨-, same⟩ := Option.ite_none_right_eq_some.mp step
          cases same
          obtain ⟨table, -, setUp⟩ := x
          rw [here] at table
          rw [Mounting.SetUp, here] at setUp
          exact ⟨table.congr fun _ _ => Iff.rfl, trivial, fun yes => (setUp.1 yes).moved _ _, setUp.2⟩
      · cases step

theorem Mounted.run (found : syscallTableFinder m = some h) {G : Guard (Mounting τ) (MountEvent τ)}
    (run : (mounting τ m h f).Run G past st)
    : Mounted f st := by
  induction run with
  | start => exact .start found
  | next before ok step ih => exact ih.step (positions_spec found f).1 step

-----------------------------------------------------------------------------------------
-- The window
-----------------------------------------------------------------------------------------

omit [DecidableEq τ] in
/-- Where a function is in the table, the module can be called. -/
theorem Mounted.callable (x : Mounted f st) (member : p ∈ f.positions) (installs : st.pc.installs p)
    : st.Callable f :=
  ⟨p, member, p, member, x.table.installed p member installs⟩

omit [DecidableEq τ] in
/-- Where no function is in the table, the module cannot be called. -/
theorem Mounted.not_callable (x : Mounted f st) (none_ : ∀ p ∈ f.positions, ¬ st.pc.installs p)
    : ¬ st.Callable f := by
  rintro ⟨p, member, q, other, same⟩
  exact f.ne_of_mem other (same.symm.trans (x.table.free p member (none_ p member)))

omit [DecidableEq τ] in
theorem Mounted.inWindow (x : Mounted f st) (distinct : (f.positions.map Prod.fst).Nodup)
    (ready : st.Callable f → st.Ready)
    : st.InWindow f := by
  have first : (h.freeEntry 0, f.sysTagGet) ∈ f.positions := List.mem_cons_self ..
  obtain ⟨base, pc, cpu, registry, accessLocks, dm, deviceLocks, tsMajor, tsClass, initialised⟩ := st
  have setUp := x.setUp
  cases pc with
  | finder | kzalloc | mutexInit | failed | unmounted => exact trivial
  | install rest =>
      obtain ⟨done, split⟩ := x.suffix
      cases done with
      | nil => exact split
      | cons p done =>
          have member : p ∈ f.positions := split ▸ List.mem_cons_self ..
          have out : p ∉ rest := by
            rw [← split] at distinct
            have inner := (List.nodup_cons.mp distinct).1
            exact fun inside => inner (List.mem_map_of_mem (List.mem_append_right _ inside))
          exact absurd ((ready (x.callable member out)).deviceLocks.symm.trans setUp.2.1) (by decide)
  | kmalloc | region | classCreate | unregisterRegion | deviceMutexes =>
      exact absurd ((ready (x.callable first trivial)).deviceLocks.symm.trans setUp.2.1) (by decide)
  | mounted | devices | device | destroyDeviceMutexes =>
      refine (Bool.not_eq_false initialised).mp fun no => ?_
      exact absurd ((ready (x.callable first trivial)).deviceLocks.symm.trans (setUp.2 no)) (by decide)
  | classDestroy | unregister | kfree | services | kzfree | mutexDestroy =>
      exact setUp (ready (x.callable first trivial)).deviceLocks
  | uninstall rest =>
      cases rest with
      | nil => rfl
      | cons p rest =>
          have member := x.suffix.subset (List.mem_cons_self ..)
          exact (setUp (ready (x.callable member (List.mem_cons_self ..))).deviceLocks).elim

omit [DecidableEq τ] in
theorem Mounted.ready (x : Mounted f st) (window : st.InWindow f) (callable : st.Callable f)
    : st.Ready := by
  obtain ⟨base, pc, cpu, registry, accessLocks, dm, deviceLocks, tsMajor, tsClass, initialised⟩ := st
  cases pc with
  | finder | kzalloc | mutexInit | failed | unmounted =>
      exact absurd callable (x.not_callable fun _ _ => id)
  | install rest =>
      have rest : rest = f.positions := window
      subst rest
      exact absurd callable (x.not_callable fun _ member => not_not_intro member)
  | mounted | devices | device | destroyDeviceMutexes => exact x.setUp.1 window
  | uninstall rest =>
      have rest : rest = [] := window
      subst rest
      exact absurd callable (x.not_callable fun _ _ => List.not_mem_nil)
  | _ => exact window.elim

/-- In every state of every run, a call that can be entered finds the module ready exactly if `start` has
installed no function yet, the driver has been initialised and `end` has not come to it, or `end` has
taken all functions out.
-/
theorem callable_ready_iff (found : syscallTableFinder m = some h)
    (run : (mounting τ m h f).Run anyStep past st)
    : (st.Callable f → st.Ready) ↔ st.InWindow f :=
  ⟨(Mounted.run found run).inWindow (positions_spec found f).1, (Mounted.run found run).ready⟩

/-- After mounting, calls find the module ready. -/
theorem callable_ready_of_mounted
    : ∃ past st,
        (mounting (Fin 2) memoryWithTable hackedOfMemory handlersOfModule).Run anyStep past st
        ∧ st.pc = .mounted
        ∧ (st.Callable handlersOfModule → st.Ready) := by
  obtain ⟨past, st, run, facts⟩ := Machine.Run.exists_of_replay
    (M := mounting (Fin 2) memoryWithTable hackedOfMemory handlersOfModule) (G := anyStep)
    (List.replicate 12 (.step 0)) (fun _ st => st.pc == .mounted && st.initialised)
    (by decide +kernel)
  obtain ⟨here, initialised⟩ := Bool.and_eq_true_iff.mp facts
  have here := eq_of_beq here
  refine ⟨past, st, run, here, (callable_ready_iff (by decide +kernel) run).mpr ?_⟩
  rw [Mounting.InWindow, here]
  exact initialised

/-- A thread enters `tag_get` before `init_device_driver` has begun. -/
theorem callable_before_driver
    : ¬ ∀ (m : KernelMemory) (h : Hacked) (f : Handlers h.niSyscall)
          (past : History (Mounting (Fin 2)) (MountEvent (Fin 2))) (st : Mounting (Fin 2)),
          syscallTableFinder m = some h
          → (mounting (Fin 2) m h f).Run anyStep past st
          → st.Callable f
          → st.Ready := by
  intro always
  obtain ⟨past, st, run, facts⟩ := Machine.Run.exists_of_replay
    (M := mounting (Fin 2) memoryWithTable hackedOfMemory handlersOfModule) (G := anyStep)
    (List.replicate 4 (.step 0) ++ [.base (.call 0 1000 (.tagGet 1 CREATE_TAG EVERYONE))])
    (fun _ st => st.dm == .absent
      && hackedOfMemory.entries st.cpu (hackedOfMemory.freeEntry 0) == handlersOfModule.sysTagGet)
    (by decide +kernel)
  obtain ⟨absent, installed⟩ := Bool.and_eq_true_iff.mp facts
  have first : (hackedOfMemory.freeEntry 0, handlersOfModule.sysTagGet) ∈ handlersOfModule.positions :=
    List.mem_cons_self ..
  have ready := always _ _ _ past st (by decide +kernel) run
    ⟨_, first, _, first, eq_of_beq installed⟩
  exact absurd ((eq_of_beq absent).symm.trans ready.dm) (by decide)

end TagExchange
