import TagExchange.Concurrency.Tally
import TagExchange.Properties.ReadyCalls

/-! What `start` leaves when one of its steps fails: it goes back cleanly from the search and from the
allocation of the registry, and never looks at what `init_device_driver` returns.
-/

namespace TagExchange

open Concurrency

variable {τ : Type} [DecidableEq τ] {m : KernelMemory} {h : Hacked} {f : Handlers h.niSyscall}
  {past : History (Mounting τ) (MountEvent τ)} {st st' : Mounting τ} {e : MountEvent τ}

-----------------------------------------------------------------------------------------
-- Failures
-----------------------------------------------------------------------------------------

/-- Which steps fail behind the search: the allocation of the registry, that of the driver,
`alloc_chrdev_region` and `class_create`.
-/
structure Failures where
  registry : Bool
  driver : Bool
  region : Bool
  classCreate : Bool

namespace Failures

/-- No step fails. -/
structure None (F : Failures) : Prop where
  registry : F.registry = false
  driver : F.driver = false
  region : F.region = false
  classCreate : F.classCreate = false

/-- Whether the step at a point of `start` fails. -/
def fails (F : Failures) : MountPc → Bool
  | .kzalloc => F.registry
  | .kmalloc => F.driver
  | .region => F.region
  | .classCreate => F.classCreate
  | _ => false

/-- What the kernel reports at a point of `start`. -/
def external (F : Failures) (pc : MountPc) : Nat :=
  if F.fails pc then 1 else 0

theorem external_of_works (F : Failures) (pc : MountPc) (works : F.fails pc = false)
    : F.external pc = 0 :=
  if_neg (by rw [works]; decide)

theorem external_of_fails (F : Failures) (pc : MountPc) (fails : F.fails pc = true)
    : F.external pc ≠ 0 := by
  rw [external, if_pos fails]
  decide

end Failures

/-- The steps of `start` fail as they are said to, the threads do what they want, and the kernel does not
call `end`.
-/
def Follows (F : Failures) : Guard (Mounting τ) (MountEvent τ) :=
  fun _ st e =>
    match e with
    | .base _ => True
    | .step external => external = F.external st.pc
    | .unmount => False

/-- `start` has returned. -/
def MountPc.returned : MountPc → Bool
  | mounted | failed => true
  | _ => false

/-- A step of `start`. -/
def isStep : Mounting τ → MountEvent τ → Bool
  | _, .step _ => true
  | _, _ => false

/-- Kernel memory is as it was before, and nothing has been set up. -/
structure NothingSetUp (m : KernelMemory) (st : Mounting τ) : Prop where
  table : st.cpu.word = m.word
  registry : st.registry = .absent
  accessLocks : st.accessLocks = .absent
  dm : st.dm = .absent
  deviceLocks : st.deviceLocks = .absent
  tsMajor : st.tsMajor = .absent
  tsClass : st.tsClass = .absent

/-- What a state of a run of `start` should be like. -/
structure AllOrNothing (m : KernelMemory) (f : Handlers h.niSyscall) (F : Failures)
    (past : History (Mounting τ) (MountEvent τ)) (st : Mounting τ)
    : Prop where
  /-- `start` returns: it makes twelve steps at most, and is not stuck before. -/
  bounded : tally isStep past ≤ 12
  goesOn : st.pc.returned = false → ∃ st', st.advance m h f (F.external st.pc) = some st'
  /-- It returns `MOUNT_SUCCESS` with all in place, and only where no step has failed. -/
  success
    : st.pc = .mounted
      → F.None ∧ st.Ready ∧ st.accessLocks = .live
        ∧ ∀ p ∈ f.positions, h.entries st.cpu p.1 = p.2
  /-- It returns `MOUNT_FAILURE` with nothing left. -/
  failure : st.pc = .failed → NothingSetUp m st

-----------------------------------------------------------------------------------------
-- Where all goes well
-----------------------------------------------------------------------------------------

/-- How many steps `start` has before it. -/
def MountPc.stepsLeft : MountPc → Nat
  | finder => 12
  | kzalloc => 11
  | mutexInit => 10
  | install rest => 5 + rest.length
  | kmalloc => 4
  | region => 3
  | classCreate => 2
  | deviceMutexes | unregisterRegion => 1
  | _ => 0

/-- The search finds the table, and no step fails behind it. -/
structure Works (m : KernelMemory) (h : Hacked) (F : Failures) : Prop where
  found : syscallTableFinder m = some h
  none : F.None

/-- What is so at each point of `start` where it either fails at once or does not fail at all. -/
def Going (m : KernelMemory) (h : Hacked) (F : Failures) (st : Mounting τ) : Prop :=
  match st.pc with
  | .finder | .failed => NothingSetUp m st
  | .kzalloc => syscallTableFinder m = some h ∧ NothingSetUp m st
  | .mutexInit => Works m h F
  | .install _ | .kmalloc => Works m h F ∧ st.accessLocks = .live
  | .region | .classCreate | .deviceMutexes =>
      Works m h F ∧ st.accessLocks = .live ∧ st.dm = .live
  | .mounted => Works m h F ∧ st.accessLocks = .live ∧ st.initialised = true
  | _ => False

omit [DecidableEq τ] in
theorem NothingSetUp.moved (x : NothingSetUp m st) (base : State τ) (pc : MountPc)
    : NothingSetUp m { st with base, pc } :=
  ⟨x.table, x.registry, x.accessLocks, x.dm, x.deviceLocks, x.tsMajor, x.tsClass⟩

omit [DecidableEq τ] in
/-- What is so before `start`. -/
theorem going_start (F : Failures) : Going m h F (Mounting.start (τ := τ) m) :=
  ⟨rfl, rfl, rfl, rfl, rfl, rfl, rfl⟩

omit [DecidableEq τ] in
/-- What the threads do does not matter, by cases on the point. -/
theorem Going.moved {F : Failures} (going : Going m h F st) (base : State τ)
    : Going m h F { st with base } := by
  obtain ⟨_, pc, cpu, registry, accessLocks, dm, deviceLocks, tsMajor, tsClass, initialised⟩ := st
  cases pc with
  | finder | failed => exact NothingSetUp.moved going base _
  | kzalloc => exact ⟨going.1, going.2.moved base _⟩
  | _ => exact going

/-- Each step of `start` keeps it and leaves fewer steps, by cases on the point. -/
theorem Going.advance {F : Failures} (going : Going m h F st)
    (either : syscallTableFinder m = some h → F.registry = false → F.None)
    (step : st.advance m h f (F.external st.pc) = some st')
    : Going m h F st' ∧ st'.pc.stepsLeft + 1 ≤ st.pc.stepsLeft := by
  obtain ⟨base, pc, cpu, registry, accessLocks, dm, deviceLocks, tsMajor, tsClass, initialised⟩ := st
  cases pc with
  | finder =>
      obtain rfl := Option.some.inj step
      split
      · next found => exact ⟨⟨found, NothingSetUp.moved going _ _⟩, Nat.le_refl 12⟩
      · exact ⟨NothingSetUp.moved going _ _, Nat.le_add_left 1 11⟩
  | kzalloc =>
      obtain ⟨found, nothing⟩ := going
      obtain rfl := Option.some.inj step
      cases fails : F.registry with
      | false =>
          rw [if_pos (F.external_of_works .kzalloc fails)]
          exact ⟨⟨found, either found fails⟩, Nat.le_refl 11⟩
      | true =>
          rw [if_neg (F.external_of_fails .kzalloc fails)]
          exact ⟨nothing.moved _ _, Nat.le_add_left 1 10⟩
  | mutexInit =>
      obtain rfl := Option.some.inj step
      exact ⟨⟨going, rfl⟩, Nat.le_refl 10⟩
  | install rest =>
      cases rest with
      | nil =>
          obtain rfl := Option.some.inj step
          exact ⟨going, Nat.le_refl 5⟩
      | cons p rest =>
          obtain ⟨r, done, rfl⟩ := Option.map_eq_some_iff.mp step
          exact ⟨going, Nat.le_refl _⟩
  | kmalloc =>
      obtain rfl := Option.some.inj step
      exact ⟨⟨going.1, going.2, if_pos (F.external_of_works .kmalloc going.1.none.driver)⟩, Nat.le_refl 4⟩
  | region =>
      obtain rfl := Option.some.inj step
      rw [if_pos (F.external_of_works .region going.1.none.region)]
      exact ⟨going, Nat.le_refl 3⟩
  | classCreate =>
      obtain rfl := Option.some.inj step
      rw [if_pos (F.external_of_works .classCreate going.1.none.classCreate)]
      exact ⟨going, Nat.le_refl 2⟩
  | deviceMutexes =>
      obtain ⟨-, same⟩ := Option.ite_none_right_eq_some.mp step
      obtain rfl := Option.some.inj same
      exact ⟨⟨going.1, going.2.1, rfl⟩, Nat.le_refl 1⟩
  | mounted | failed => cases step
  | _ => exact going.elim

/-- `start` is not stuck there, by cases on the point. -/
theorem Going.goesOn {F : Failures} (going : Going m h F st) (running : st.pc.returned = false)
    : ∃ st', st.advance m h f (F.external st.pc) = some st' := by
  obtain ⟨base, pc, cpu, registry, accessLocks, dm, deviceLocks, tsMajor, tsClass, initialised⟩ := st
  cases pc with
  | install rest =>
      cases rest with
      | nil => exact ⟨_, rfl⟩
      | cons p rest =>
          obtain ⟨r, c', done, -⟩ := installSyscall_spec h cpu p.2 p.1
          exact ⟨_, Option.map_eq_some_iff.mpr ⟨_, done, rfl⟩⟩
  | deviceMutexes => exact ⟨_, if_pos going.2.2⟩
  | mounted | failed => cases running
  | finder | kzalloc | mutexInit | kmalloc | region | classCreate => exact ⟨_, rfl⟩
  | _ => exact going.elim

/-- It is so all along a run, and the steps of `start` are counted. -/
theorem going_run {F : Failures} (either : syscallTableFinder m = some h → F.registry = false → F.None)
    (run : (mounting τ m h f).Run (Follows F) past st)
    : Going m h F st ∧ st.pc.stepsLeft + tally isStep past ≤ 12 := by
  induction run with
  | start => exact ⟨going_start F, Nat.le_refl 12⟩
  | @next past st e st' before ok step ih =>
      obtain ⟨going, count⟩ := ih
      rw [tally_cons]
      cases e with
      | base e =>
          obtain ⟨-, same⟩ := Option.ite_none_right_eq_some.mp step
          obtain ⟨base, -, rfl⟩ := Option.map_eq_some_iff.mp same
          exact ⟨going.moved base, count⟩
      | step external =>
          obtain rfl : external = F.external st.pc := ok
          obtain ⟨going, fewer⟩ := going.advance either step
          have one : isStep st (.step (F.external st.pc)) = true := rfl
          refine ⟨going, ?_⟩
          rw [one, if_pos rfl]
          omega
      | unmount => exact ok.elim

theorem Going.allOrNothing {F : Failures} (going : Going m h F st)
    (count : st.pc.stepsLeft + tally isStep past ≤ 12)
    (run : (mounting τ m h f).Run (Follows F) past st)
    : AllOrNothing m f F past st where
  bounded := Nat.le_trans (Nat.le_add_left ..) count
  goesOn := going.goesOn
  success here := by
    rw [Going, here] at going
    obtain ⟨works, locks, initialised⟩ := going
    have mounted := Mounted.run works.found run
    have setUp := mounted.setUp
    rw [Mounting.SetUp, here] at setUp
    refine ⟨works.none, setUp.1 initialised, locks, fun p member => ?_⟩
    exact mounted.table.installed p member (by rw [here]; trivial)
  failure here := by
    rw [Going, here] at going
    exact going

-----------------------------------------------------------------------------------------
-- Where a late step fails
-----------------------------------------------------------------------------------------

/-- The next step of `start`. -/
theorem run_advance {F : Failures} (run : (mounting τ m h f).Run (Follows F) past st)
    (step : st.advance m h f (F.external st.pc) = some st')
    : ∃ past', (mounting τ m h f).Run (Follows F) past' st' := by
  have ok : Follows F past st (.step (F.external st.pc)) := rfl
  exact ⟨_, run.next ok step⟩

/-- The functions are installed, by induction on those that are left. -/
theorem exists_at_kmalloc {F : Failures} {rest : List (Nat × Nat)}
    (run : (mounting τ m h f).Run (Follows F) past st) (here : st.pc = .install rest)
    : ∃ past' st', (mounting τ m h f).Run (Follows F) past' st' ∧ st'.pc = .kmalloc := by
  induction rest generalizing past st with
  | nil =>
      have step : st.advance m h f (F.external st.pc) = some (st.at_ .kmalloc) := by
        rw [Mounting.advance, here]
      obtain ⟨past', run⟩ := run_advance run step
      exact ⟨past', _, run, rfl⟩
  | cons p rest ih =>
      obtain ⟨r, c', done, -⟩ := installSyscall_spec h st.cpu p.2 p.1
      have step
          : st.advance m h f (F.external st.pc)
            = some { st with cpu := c', pc := .install rest } := by
        rw [Mounting.advance, here]
        exact Option.map_eq_some_iff.mpr ⟨_, done, rfl⟩
      obtain ⟨past', run⟩ := run_advance run step
      exact ih run rfl

/-- `start` comes to `alloc_chrdev_region` whether the driver has been allocated or not. -/
theorem exists_at_region {F : Failures} (found : syscallTableFinder m = some h)
    (works : F.registry = false)
    : ∃ past st,
        (mounting τ m h f).Run (Follows F) past st
        ∧ st.pc = .region
        ∧ (st.dm = .live → F.driver = false) := by
  have finder
      : (Mounting.start (τ := τ) m).advance m h f (F.external .finder)
        = some ((Mounting.start m).at_ .kzalloc) :=
    congrArg (fun pc => some ((Mounting.start m).at_ pc)) (if_pos found)
  obtain ⟨_, run⟩ := run_advance (f := f) .start finder
  obtain ⟨_, run⟩ := run_advance run (congrArg some (if_pos (F.external_of_works .kzalloc works)))
  obtain ⟨_, run⟩ := run_advance run rfl
  obtain ⟨_, st, run, here⟩ := exists_at_kmalloc run rfl
  have kmalloc
      : st.advance m h f (F.external st.pc)
        = some { st with dm := if F.external .kmalloc = 0 then .live else .absent, pc := .region } := by
    rw [Mounting.advance, here]
  obtain ⟨past, run⟩ := run_advance run kmalloc
  refine ⟨past, _, run, rfl, fun live => ?_⟩
  cases fails : F.driver with
  | false => rfl
  | true =>
      dsimp only at live
      rw [if_neg (F.external_of_fails .kmalloc fails)] at live
      cases live

/-- Mounting is all or nothing if and only if no step of `init_device_driver` fails after the registry
has been allocated: such a failure is found at a point behind, which `start` reaches.
-/
theorem allOrNothing_iff (F : Failures)
    : (∀ past st, (mounting τ m h f).Run (Follows F) past st → AllOrNothing m f F past st)
      ↔ (syscallTableFinder m = some h
        → F.registry = false
        → F.driver = false ∧ F.region = false ∧ F.classCreate = false) := by
  constructor
  · intro all found works
    obtain ⟨_, st, run, here, live⟩ := exists_at_region (τ := τ) (f := f) found works
    cases region : F.region with
    | true =>
        have step : st.advance m h f (F.external st.pc) = some (st.at_ .mounted) := by
          rw [Mounting.advance, here]
          exact congrArg some (if_neg (F.external_of_fails .region region))
        obtain ⟨_, run⟩ := run_advance run step
        have none_ := ((all _ _ run).success rfl).1.region
        exact absurd (region.symm.trans none_) (by decide)
    | false =>
        have step
            : st.advance m h f (F.external st.pc)
              = some { st with tsMajor := .live, pc := .classCreate } := by
          rw [Mounting.advance, here]
          exact congrArg some (if_pos (F.external_of_works .region region))
        obtain ⟨_, run⟩ := run_advance run step
        cases create : F.classCreate with
        | true =>
            obtain ⟨_, run⟩ :=
              run_advance run (congrArg some (if_neg (F.external_of_fails .classCreate create)))
            obtain ⟨_, run⟩ := run_advance run rfl
            have none_ := ((all _ _ run).success rfl).1.classCreate
            exact absurd (create.symm.trans none_) (by decide)
        | false =>
            obtain ⟨_, run⟩ :=
              run_advance run (congrArg some (if_pos (F.external_of_works .classCreate create)))
            obtain ⟨st', step⟩ := (all _ _ run).goesOn rfl
            obtain ⟨dm, -⟩ := Option.ite_none_right_eq_some.mp step
            exact ⟨live dm, rfl, rfl⟩
  · intro rest past st run
    have either (found : syscallTableFinder m = some h) (works : F.registry = false) : F.None := by
      obtain ⟨driver, region, create⟩ := rest found works
      exact ⟨works, driver, region, create⟩
    obtain ⟨going, count⟩ := going_run either run
    exact going.allOrNothing count run

instance (F : Failures) (past : History (Mounting τ) (MountEvent τ)) (st : Mounting τ)
    (e : MountEvent τ)
    : Decidable (Follows F past st e) :=
  match e with
  | .base _ => isTrue trivial
  | .step external => inferInstanceAs (Decidable (external = F.external st.pc))
  | .unmount => isFalse id

/-- `class_create` fails. The module is mounted, its functions can be called, and there is no class. -/
theorem mounts_without_class
    : ∃ past st,
        (mounting (Fin 1) memoryWithTable hackedOfMemory handlersOfModule).Run
          (Follows ⟨false, false, false, true⟩) past st
        ∧ st.pc = .mounted
        ∧ st.tsClass = .absent
        ∧ st.tsMajor = .dead
        ∧ hackedOfMemory.entries st.cpu (hackedOfMemory.freeEntry 0) = handlersOfModule.sysTagGet := by
  obtain ⟨past, st, run, facts⟩ := Machine.Run.exists_of_replay
    (M := mounting (Fin 1) memoryWithTable hackedOfMemory handlersOfModule)
    (G := Follows ⟨false, false, false, true⟩)
    (List.replicate 10 (.step 0) ++ [.step 1, .step 0])
    (fun _ st => st.pc == .mounted && st.tsClass == .absent && st.tsMajor == .dead
      && hackedOfMemory.entries st.cpu (hackedOfMemory.freeEntry 0) == handlersOfModule.sysTagGet)
    (by decide +kernel)
  simp only [Bool.and_eq_true, beq_iff_eq] at facts
  obtain ⟨⟨⟨here, absent⟩, dead⟩, installed⟩ := facts
  exact ⟨past, st, run, here, absent, dead, installed⟩

end TagExchange
