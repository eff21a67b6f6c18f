import TagExchange.Properties.Erasure
import TagExchange.Properties.References
import TagExchange.Properties.Sessions
import TagExchange.Properties.Settling

/-! The module count: how many calls are inside, how many have returned without giving their
reference back, and how many files are open. It says when the module can be unmounted again.
-/

namespace TagExchange

open Concurrency

variable {τ : Type} [DecidableEq τ] {h : History (State τ) (Event τ)} {st st' : State τ}
  {e : Event τ} {t : τ} {G : Guard (State τ) (Event τ)}

-----------------------------------------------------------------------------------------
-- The references of calls
-----------------------------------------------------------------------------------------

/-- How often a call counts: once, from its first step to its return. -/
def Frame.inside (frame : Frame) : Nat :=
  frame.refs.toNat

/-- The call is about to return and to keep its reference. -/
def Frame.keepsRef : Frame → Bool
  | send f => match f.pc with
      | .ret _ false => true
      | _ => false
  | _ => false

/-- The event is the return of a call that keeps its reference. -/
def State.loses (st : State τ) : Event τ → Bool
  | .run t _ => (st.thread t).frame.keepsRef
  | _ => false

def Thread.inside (thread : Thread) : Nat :=
  thread.frame.inside

/-- The references of all calls that are inside. -/
noncomputable def State.inside (st : State τ) : Nat :=
  workload (Thread.inside ∘ st.thread)

/-- A call has what it has taken and neither given back nor lost, by cases on the move. -/
theorem inside_of_exec {k k' : Kernel τ} {external : Nat} {c : CallId τ} {before after : Frame}
    (step : k.exec external (before.op c) = some (k', after))
    : (after.inside : Int) - before.inside
      = (if before.acquires external .reference then 1 else 0)
        - (if before.releases .reference then 1 else 0)
        - if before.keepsRef then 1 else 0 := by
  cases before with
  | user last => cases step
  | get f =>
      have move := getMove_of_exec step
      obtain ⟨key, command, permission, euid, tag, ts, pc⟩ := f
      cases move <;> rfl
  | send f =>
      have move := sendMove_of_exec step
      obtain ⟨tag, level, buffer, size, euid, realSize, stored, ts, pc⟩ := f
      cases move
      case leave put => cases put <;> rfl
      all_goals rfl
  | receive f =>
      have move := receiveMove_of_exec step
      obtain ⟨tag, level, buffer, size, euid, ts, realSize, interrupted, copied, pc⟩ := f
      cases move <;> rfl
  | ctl f =>
      have move := ctlMove_of_exec step
      obtain ⟨tag, command, euid, ts, index, awakened, pc⟩ := f
      cases move <;> rfl

omit [DecidableEq τ] in
theorem finite_inside (few : st.FewBusy) : (Thread.inside ∘ st.thread).support.Finite := by
  refine few.subset fun t busy => ?_
  cases here : (st.thread t).frame with
  | user last => exact absurd (by simp [here, Thread.inside, Frame.inside, Frame.refs]) busy
  | _ => simp [here, Frame.idle]

omit [DecidableEq τ] in
theorem inside_eq_zero (nobody : ∀ t, (st.thread t).frame.inside = 0) : st.inside = 0 :=
  workload_eq_zero nobody

/-- What a step does to the references of the system calls: those that are not inside afterwards and
were before have been given back or lost.
-/
theorem count_of_step (few : st.FewBusy) (step : st.step e = some st')
    : st'.kernel.moduleRefs - st'.inside
      = st.kernel.moduleRefs - st.inside + if st.loses e then 1 else 0 := by
  -- Most events neither take a reference nor give one back.
  have same {st₁ : State τ} (inside : st₁.inside = st.inside)
      (count : st₁.kernel.moduleRefs = st.kernel.moduleRefs) (quiet : st.loses e = false)
      : st₁.kernel.moduleRefs - st₁.inside
        = st.kernel.moduleRefs - st.inside + if st.loses e then 1 else 0 := by
    rw [inside, count, quiet]
    simp
  cases State.steps_of_step step with
  | @call t euid c last user =>
      have exchanged := workload_comp_update (t := t)
        (x := ⟨(st.thread t).calls + 1, c.enter euid⟩) (finite_inside few)
      have before : (st.thread t).inside = 0 := by
        rw [Thread.inside, user]
        rfl
      have after : Thread.inside ⟨(st.thread t).calls + 1, c.enter euid⟩ = 0 := by cases c <;> rfl
      refine same ?_ rfl rfl
      rw [before, after] at exchanged
      exact exchanged
  | @run t external k frame exec =>
      have exchanged := workload_comp_update (t := t) (x := ⟨(st.thread t).calls, frame⟩)
        (finite_inside few)
      have own := inside_of_exec exec
      have held := Kernel.exec_held exec .reference
      obtain ⟨taken, given⟩ :=
        op_resources external (t, (st.thread t).calls) (st.thread t).frame .reference
      rw [State.op, taken, given] at held
      show k.held .reference
          - (workload (Thread.inside ∘ Function.update st.thread t ⟨(st.thread t).calls, frame⟩) : Int)
        = st.kernel.held .reference - (workload (Thread.inside ∘ st.thread) : Int)
          + if (st.thread t).frame.keepsRef then 1 else 0
      simp only [Thread.inside] at exchanged
      omega
  | @softirq n b k next ready exec =>
      have held := Kernel.exec_held exec .reference
      have still : b.op.acquires 0 .reference = false ∧ b.op.releases .reference = false := by
        obtain ⟨job, s, stage, caller⟩ := b
        cases job <;> cases stage <;> exact ⟨rfl, rfl⟩
      rw [still.1, still.2] at held
      exact same rfl (by simpa [Kernel.held, Int.sub_eq_zero] using held) rfl
  | signal busy => exact same rfl rfl rfl
  | reuse freed => exact same rfl rfl rfl

/-- While no file is opened the module count is the number of calls that are inside and of those that
have kept their reference.
-/
theorem count_run (run : (machine τ).Run G h st)
    : st.kernel.moduleRefs = st.inside + tally State.loses h := by
  refine run.invariant
    (P := fun h st => st.kernel.moduleRefs = st.inside + tally State.loses h) ?_ ?_
  · show (0 : Int) = ((State.start : State τ).inside : Int) + 0
    rw [inside_eq_zero fun _ => rfl]
    rfl
  · intro h st e st' before counted _ step
    have stepped := count_of_step (fewBusy_run before) step
    rw [tally_cons]
    push_cast
    omega

-----------------------------------------------------------------------------------------
-- The references of files
-----------------------------------------------------------------------------------------

section

variable {strlen : List (Option Nat) → Nat} {st st' : DeviceState τ} {e : DeviceEvent τ}
  {h : History (DeviceState τ) (DeviceEvent τ)} {G : Guard (DeviceState τ) (DeviceEvent τ)}

/-- The thread is opening a file. -/
def DeviceFrame.opens : DeviceFrame → Nat
  | opening _ => 1
  | _ => 0

/-- The session is open. -/
def Session.opens : Option Session → Nat
  | some _ => 1
  | none => 0

/-- The files that are being opened, and those that are open. -/
noncomputable def DeviceState.files (st : DeviceState τ) : Nat :=
  workload (DeviceFrame.opens ∘ st.frame) + workload (Session.opens ∘ st.session)

/-- Only finitely many threads are in a call or open a file, and only finitely many files are open. -/
structure DeviceState.Few (st : DeviceState τ) : Prop where
  busy : st.base.FewBusy
  opening : (DeviceFrame.opens ∘ st.frame).support.Finite
  open_ : (Session.opens ∘ st.session).support.Finite

theorem few_run (run : (charDevices τ strlen).Run G h st) : st.Few where
  busy := by
    refine run.invariant (P := fun _ st => st.base.FewBusy)
      (Set.finite_empty.subset fun t busy => by cases busy) fun _ few _ step => ?_
    rcases memory_of_step step with ⟨e₀, -, inner⟩ | ⟨-, thread, -⟩
    · exact fewBusy_of_step inner few
    · simpa only [State.FewBusy, thread] using few
  opening := by
    refine run.invariant (P := fun _ st => (DeviceFrame.opens ∘ st.frame).support.Finite)
      (Set.finite_empty.subset fun t busy => (busy rfl).elim) fun _ few _ step => ?_
    cases DeviceState.steps_of_step step with
    | base | close => exact few
    | opened =>
        unfold DeviceState.tsOpen
        split <;> exact finite_comp_update few
    | lookup | read | run | leave => exact finite_comp_update few
  open_ := by
    refine (Set.finite_lt_nat st.sessions).subset fun n opens => ?_
    obtain ⟨file, found⟩ : ∃ file, st.session n = some file := by
      cases found : st.session n with
      | none => exact absurd (congrArg Session.opens found) opens
      | some file => exact ⟨file, rfl⟩
    exact (filed_run run).known found

/-- Two references are taken for every file, by cases on the step. -/
theorem files_of_step (few : st.Few) (filed : Filed st) (step : st.step strlen e = some st')
    : st'.fileRefs - fileOwners * st'.files = st.fileRefs - fileOwners * st.files := by
  have thread {t : τ} (frame : DeviceFrame) :=
    workload_comp_update (t := t) (x := frame) few.opening
  have file {n : Nat} (file : Option Session) :=
    workload_comp_update (t := n) (x := file) few.open_
  cases DeviceState.steps_of_step step with
  | base => rfl
  | @lookup t minor last user out =>
      have exchanged := thread (t := t) (.opening minor)
      rw [out] at exchanged
      simp only [DeviceState.files, DeviceState.setFrame, DeviceFrame.opens, fileOwners] at exchanged ⊢
      omega
  | @opened t minor external here =>
      have fresh : st.session st.sessions = none := by
        cases found : st.session st.sessions with
        | none => rfl
        | some file => exact absurd (filed.known found) (Nat.lt_irrefl _)
      unfold DeviceState.tsOpen
      split
      · have exchanged := thread (t := t) (.out (some (-ENODEV)))
        rw [here] at exchanged
        simp only [DeviceState.files, DeviceState.setFrame, DeviceFrame.opens, fileOwners]
          at exchanged ⊢
        omega
      · have exchanged := thread (t := t) (.out (some 0))
        have filled := file (n := st.sessions)
          (some ⟨st.base.kernel.tsm.allTagServices minor, 0, 0⟩)
        rw [here] at exchanged
        rw [fresh] at filled
        simp only [DeviceState.files, DeviceState.setSession, DeviceFrame.opens, Session.opens,
          fileOwners] at exchanged filled ⊢
        omega
  | @read t n count last user file' out idle found =>
      have exchanged := thread (t := t) (.reading ⟨n, file'.privateData, count, [], .rcuLock⟩)
      have filled := file (n := n) (some { file' with readers := file'.readers + 1 })
      rw [out] at exchanged
      rw [found] at filled
      simp only [DeviceState.files, DeviceState.setSession, DeviceState.setFrame, DeviceFrame.opens,
        Session.opens, fileOwners] at exchanged filled ⊢
      omega
  | @run t external f file' k position f' here found move =>
      have exchanged := thread (t := t) (.reading f')
      have filled := file (n := f.session) (some { file' with position })
      rw [here] at exchanged
      rw [found] at filled
      simp only [DeviceState.files, DeviceState.setKernel, DeviceState.setSession,
        DeviceState.setFrame, DeviceFrame.opens, Session.opens, fileOwners] at exchanged filled ⊢
      omega
  | @leave t external f file' r here found ret =>
      have exchanged := thread (t := t) (.out (some r))
      have filled := file (n := f.session) (some { file' with readers := file'.readers - 1 })
      rw [here] at exchanged
      rw [found] at filled
      simp only [DeviceState.files, DeviceState.setSession, DeviceState.setFrame, DeviceFrame.opens,
        Session.opens, fileOwners] at exchanged filled ⊢
      omega
  | @close n file' found unused =>
      have filled := file (n := n) none
      rw [found] at filled
      simp only [DeviceState.files, DeviceState.setSession, Session.opens, fileOwners] at filled ⊢
      omega

/-- The event is the return of a call that keeps its reference. -/
def DeviceState.loses (st : DeviceState τ) : DeviceEvent τ → Bool
  | .base e => st.base.loses e
  | _ => false

/-- The module count in every reachable state: the calls that are inside, those that have kept their
reference, and two for each file that is open or being opened.
-/
theorem moduleRefs_run (run : (charDevices τ strlen).Run G h st)
    : st.moduleRefs = st.base.inside + tally DeviceState.loses h + fileOwners * st.files := by
  have files : st.fileRefs = fileOwners * st.files := by
    refine run.invariant (P := fun _ st => st.fileRefs = fileOwners * st.files) ?_
      fun before counted _ step => ?_
    · have threads : workload (DeviceFrame.opens ∘ (DeviceState.start : DeviceState τ).frame) = 0 :=
        workload_eq_zero fun _ => rfl
      have sessions : workload (Session.opens ∘ (DeviceState.start : DeviceState τ).session) = 0 :=
        workload_eq_zero fun _ => rfl
      show (0 : Int) = fileOwners * (DeviceState.files DeviceState.start : Int)
      rw [DeviceState.files, threads, sessions]
      rfl
    · have stepped := files_of_step (few_run before) (filed_run before) step
      omega
  have calls : st.base.kernel.moduleRefs = st.base.inside + tally DeviceState.loses h := by
    refine run.invariant
      (P := fun h st =>
        st.base.kernel.moduleRefs = st.base.inside + tally DeviceState.loses h) ?_ ?_
    · show (0 : Int) = ((State.start : State τ).inside : Int) + 0
      rw [inside_eq_zero fun _ => rfl]
      rfl
    · intro h st e st' before counted _ step
      rw [tally_cons]
      rcases memory_of_step step with ⟨e₀, rfl, inner⟩ | ⟨same, thread, driver⟩
      · have stepped := count_of_step (few_run before).busy inner
        have loses : st.loses (.base e₀) = st.base.loses e₀ := rfl
        rw [loses]
        push_cast
        omega
      · have quiet : st.loses e = false := by
          cases e with
          | base e₀ => exact absurd rfl (driver e₀)
          | _ => rfl
        have inside : st'.base.inside = st.base.inside := by
          rw [State.inside, State.inside, thread]
        rw [same.moduleRefs, inside, counted, quiet]
        simp
  rw [DeviceState.moduleRefs, calls, files]

-----------------------------------------------------------------------------------------
-- Unmounting
-----------------------------------------------------------------------------------------

/-- Nobody has a file of the module open, or is opening one. -/
def DeviceState.Closed (st : DeviceState τ) : Prop :=
  (∀ t minor, st.frame t ≠ .opening minor) ∧ ∀ n, st.session n = none

/-- The kernel lets the module be unmounted exactly when no call has come past its first step without
having returned, no file of a device is open or being opened, and no `tag_send` has kept its reference
before.
-/
theorem unmountable_iff (run : (charDevices τ strlen).Run G h st)
    : st.moduleRefs = 0
      ↔ (∀ t, (st.base.thread t).frame.inside = 0) ∧ st.Closed ∧ tally DeviceState.loses h = 0 := by
  have few := few_run run
  rw [moduleRefs_run run]
  constructor
  · intro empty
    simp only [DeviceState.files, fileOwners] at empty
    have nobody : st.base.inside = 0 := by omega
    refine ⟨fun t => ?_, ⟨fun t minor opening => ?_, fun n => ?_⟩, by omega⟩
    · exact Nat.eq_zero_of_le_zero (nobody ▸ le_workload (finite_inside few.busy) t)
    · have one := le_workload few.opening t
      simp only [Function.comp_apply, opening, DeviceFrame.opens] at one
      omega
    · have one := le_workload few.open_ n
      cases found : st.session n with
      | none => rfl
      | some file =>
          simp only [Function.comp_apply, found, Session.opens] at one
          omega
  · rintro ⟨nobody, ⟨opening, open_⟩, none_⟩
    have threads : workload (DeviceFrame.opens ∘ st.frame) = 0 := by
      refine workload_eq_zero fun t => ?_
      cases here : st.frame t with
      | opening minor => exact absurd here (opening t minor)
      | _ => simp [here, DeviceFrame.opens]
    have sessions : workload (Session.opens ∘ st.session) = 0 :=
      workload_eq_zero fun n => congrArg Session.opens (open_ n)
    rw [inside_eq_zero nobody, none_, DeviceState.files, threads, sessions]
    rfl

/-- A file of a device is open, and nobody is inside a call. -/
theorem unmountable_iff_of_reader
    : ∃ (h : History (DeviceState (Fin 2)) (DeviceEvent (Fin 2))) (st : DeviceState (Fin 2)),
        (charDevices (Fin 2) anyLength).Run anyStep h st
        ∧ (∀ t, (st.base.thread t).frame.inside = 0)
        ∧ tally DeviceState.loses h = 0
        ∧ st.moduleRefs ≠ 0 := by
  obtain ⟨h, st, run, facts⟩ := Machine.Run.exists_of_replay
    (M := charDevices (Fin 2) anyLength) (G := anyStep)
    ((creating 0 1).map .base ++ [.lookup 1 1, .run 1 0])
    (fun h st =>
      decide ((∀ t, (st.base.thread t).frame.inside = 0) ∧ tally DeviceState.loses h = 0
        ∧ (st.session 0).isSome = true))
    (by decide +kernel)
  obtain ⟨nobody, lost, here⟩ := of_decide_eq_true facts
  refine ⟨h, st, run, nobody, lost, fun empty => ?_⟩
  obtain ⟨-, closed, -⟩ := (unmountable_iff run).mp empty
  rw [closed.2 0] at here
  cases here

end
/-- Every receiver has a signal pending, as when all processes are being killed. -/
def State.Signalled (st : State τ) : Prop :=
  ∀ t f, (st.thread t).frame = .receive f → st.kernel.signalled t = true

theorem signalled_of_advance (signalled : st.Signalled) (advances : e.advances)
    (step : st.step e = some st')
    : st'.Signalled := by
  intro t f after
  have before : ∃ f, (st.thread t).frame = .receive f := by
    cases turn_of_step step t with
    | rest _ thread => exact ⟨f, thread ▸ after⟩
    | enter event => rw [event] at advances; cases advances
    | @go external frame event exec thread =>
        rw [thread] at after
        obtain rfl : frame = .receive f := after
        have same := Kernel.exec_sameCall exec
        cases here : (st.thread t).frame <;> rw [here] at same <;> first | exact ⟨_, rfl⟩ | cases same
  obtain ⟨f₀, before⟩ := before
  rcases signalled_of_step step t with same | ⟨event, -⟩ | ⟨-, idle⟩
  · rw [same]
    exact signalled t f₀ before
  · rw [event] at advances
    cases advances
  · rw [after] at idle
    cases idle

/-- When every receiver has a signal pending and nobody enters a call, all calls return in whatever
order they and the callbacks go on, unless a call oopses. The module count is then the number of
`tag_send` calls that have kept their reference, so that the module can be unmounted if and only if
there has been none.
-/
theorem all_return (run : (machine τ).Run Unheld h st) (signalled : st.Signalled)
    : (machine τ).Settles Event.advances
        (fun st' =>
          (∀ t, (st'.thread t).frame.oopsed = false)
          → (∀ t, (st'.thread t).frame.idle = true)
            ∧ ∃ h',
                (machine τ).Run Unheld (h' ++ h) st'
                ∧ st'.kernel.moduleRefs = tally State.loses (h' ++ h)) st := by
  refine Machine.settles_of_measure State.workLeft
    (I := fun st' => ∃ h', (machine τ).Run Unheld (h' ++ h) st' ∧ st'.Signalled) ?_ ?_ ?_
    ⟨[], run, signalled⟩
  · rintro st e st' ⟨h', before, signalled⟩ advances step
    refine ⟨(st, e) :: h', before.next ?_ step, signalled_of_advance signalled advances step⟩
    cases e <;> trivial
  · rintro st e st' ⟨h', before, -⟩ advances step
    exact workLeft_of_step (fewBusy_run before) advances step
  · rintro st ⟨h', before, signalled⟩ stuck sound
    have idle (t : τ) : (st.thread t).frame.idle = true := by
      rcases (atRest_of_stuck before stuck sound).threads t with idle | ⟨f, here, -, -, quiet⟩
      · exact idle
      · cases quiet.symm.trans (signalled t f here)
    refine ⟨idle, h', before, ?_⟩
    have nobody (t : τ) : (st.thread t).frame.inside = 0 := by
      obtain ⟨last, here⟩ := Frame.eq_user_of_idle (idle t)
      rw [here]
      rfl
    rw [count_run before, inside_eq_zero nobody]
    exact Int.zero_add _

/-- A sleeping receiver gets a signal: all calls return, and the module can be unmounted. -/
theorem all_return_of_sleeper
    : ∃ h st,
        (machine (Fin 2)).Run Unheld h st
        ∧ st.kernel.moduleRefs = 1
        ∧ (machine (Fin 2)).Settles Event.advances
            (fun st' =>
              (∀ t, (st'.thread t).frame.oopsed = false)
              → (∀ t, (st'.thread t).frame.idle = true)
                ∧ ∃ h',
                    (machine (Fin 2)).Run Unheld (h' ++ h) st'
                    ∧ st'.kernel.moduleRefs = tally State.loses (h' ++ h)) st := by
  obtain ⟨h, st, run, facts⟩ := Machine.Run.exists_of_replay
    (M := machine (Fin 2)) (G := Unheld) (creating 0 1 ++ fallingAsleep 1 1 0 ++ [.signal 1])
    (fun _ st =>
      decide (st.kernel.moduleRefs = 1
        ∧ ∀ t, (st.thread t).frame.idle = true ∨ st.kernel.signalled t = true))
    (by decide +kernel)
  obtain ⟨inside, signalled⟩ := of_decide_eq_true facts
  refine ⟨h, st, run, inside, all_return run fun t f here => ?_⟩
  refine (signalled t).resolve_left fun idle => ?_
  rw [here] at idle
  cases idle

end TagExchange
