import Mathlib.Data.Prod.Lex
import TagExchange.Concurrency.Settling
import TagExchange.Concurrency.Workload
import TagExchange.Model.StepsLeft
import TagExchange.Properties.LockDiscipline

/-! The module comes to rest: as long as nobody enters a call and no signal arrives, the calls and
the callbacks come to an end in whatever order they take their steps, and leave nothing behind.
-/

namespace TagExchange

open Concurrency Protocol

variable {τ : Type}

/-- A step of a call or of a callback; nothing new comes from outside. -/
def Event.advances : Event τ → Prop
  | run _ _ | softirq _ => True
  | _ => False

variable [DecidableEq τ] {h : History (State τ) (Event τ)} {st st' : State τ} {e : Event τ} {t : τ}
  {G : Guard (State τ) (Event τ)}

-----------------------------------------------------------------------------------------
-- The busy threads
-----------------------------------------------------------------------------------------

/-- Only finitely many threads are in a call. -/
def State.FewBusy (st : State τ) : Prop :=
  {t | (st.thread t).frame.idle = false}.Finite

theorem fewBusy_of_step (step : st.step e = some st') (few : st.FewBusy) : st'.FewBusy := by
  have update {t : τ} {th : Thread} {k : Kernel τ}
      : (({ st with kernel := k }).setThread t th).FewBusy := by
    refine (few.insert t).subset fun u busy => ?_
    rcases eq_or_ne u t with rfl | other
    · exact Set.mem_insert ..
    · refine .inr ?_
      simpa [State.setThread, Function.update_of_ne other] using busy
  cases State.steps_of_step step with
  | call user => exact update
  | run exec => exact update
  | _ => exact few

theorem fewBusy_run (run : (machine τ).Run G h st) : st.FewBusy := by
  refine run.invariant (P := fun _ st => st.FewBusy) ?_ fun _ few _ step => fewBusy_of_step step few
  exact Set.finite_empty.subset fun t busy => by cases busy

-----------------------------------------------------------------------------------------
-- The work left
-----------------------------------------------------------------------------------------

/-- The steps that each thread has left at most before it returns or sleeps. -/
def State.threadSteps (st : State τ) (t : τ) : Nat :=
  (st.thread t).frame.stepsLeft (st.kernel.woken t)

def State.threadWakes (st : State τ) (t : τ) : Nat :=
  (st.thread t).frame.wakesLeft

def State.callbackSteps (st : State τ) : Nat :=
  (st.kernel.rcu.callbacks.map Callback.stepsLeft).sum

/-- The wake-ups and callbacks that are still to come, and then the steps of all calls and callbacks. -/
noncomputable def State.workLeft (st : State τ) : Nat ×ₗ Nat :=
  toLex (workload st.threadWakes, workload st.threadSteps + st.callbackSteps)

theorem finite_threadSteps (few : st.FewBusy) : st.threadSteps.support.Finite := by
  refine few.subset fun t busy => ?_
  cases here : (st.thread t).frame with
  | user last => exact absurd (by rw [State.threadSteps, here]; rfl) busy
  | _ => simp [here, Frame.idle]

omit [DecidableEq τ] in
theorem finite_threadWakes (few : st.FewBusy) : st.threadWakes.support.Finite := by
  refine few.subset fun t busy => ?_
  cases here : (st.thread t).frame with
  | user last => exact absurd (by rw [State.threadWakes, here]; rfl) busy
  | _ => simp [here, Frame.idle]

omit [DecidableEq τ] in
/-- A call hands its mutex over by registering a callback, by cases on the program point. -/
theorem isSome_registers (c : CallId τ) (frame : Frame)
    : (frame.op c).registers.isSome = frame.handsOver := by
  cases frame with
  | user last => rfl
  | get f =>
      obtain ⟨key, command, permission, euid, tag, ts, pc⟩ := f
      cases pc
      case find pc => cases pc <;> rfl
      case device pc => cases pc using CreateDevicePc.points <;> rfl
      all_goals rfl
  | send f =>
      obtain ⟨tag, level, buffer, size, euid, realSize, stored, ts, pc⟩ := f
      cases pc <;> rfl
  | receive f =>
      obtain ⟨tag, level, buffer, size, euid, ts, realSize, interrupted, copied, pc⟩ := f
      cases pc
      case entered pc => cases pc <;> rfl
      case left x pc => cases pc <;> rfl
      all_goals rfl
  | ctl f =>
      obtain ⟨tag, command, euid, ts, index, awakened, pc⟩ := f
      cases pc
      case find pc => cases pc <;> rfl
      case destroy pc => cases pc <;> rfl
      all_goals rfl

/-- Every step of a call or of a callback uses up some of the work: a wake-up may give the others more
steps to do, and a registration adds those of a callback, but there is one of these less.
-/
theorem workLeft_of_step (few : st.FewBusy) (advances : e.advances) (step : st.step e = some st')
    : st'.workLeft < st.workLeft := by
  rw [State.workLeft, State.workLeft, Prod.Lex.toLex_lt_toLex]
  cases State.steps_of_step step with
  | @run t external k frame exec =>
      have wakes
          : (({ st with kernel := k }).setThread t ⟨(st.thread t).calls, frame⟩).threadWakes
            = Function.update st.threadWakes t frame.wakesLeft := by
        funext u
        rcases eq_or_ne u t with rfl | other
        · simp [State.threadWakes, State.setThread]
        · simp [State.threadWakes, State.setThread, Function.update_of_ne other]
      have fewer := Frame.wakesLeft_of_exec exec
      have exchanged := workload_update (t := t) (n := frame.wakesLeft) (finite_threadWakes few)
      have here : st.threadWakes t = (st.thread t).frame.wakesLeft := rfl
      rw [wakes]
      cases quiet : (st.thread t).frame.wakesAll || (st.thread t).frame.handsOver with
      | true =>
          refine .inl ?_
          simp only [quiet, if_true] at fewer
          show workload (Function.update st.threadWakes t frame.wakesLeft) < workload st.threadWakes
          omega
      | false =>
          obtain ⟨asleep, keeps⟩ := Bool.or_eq_false_iff.mp quiet
          have steps
              : (({ st with kernel := k }).setThread t ⟨(st.thread t).calls, frame⟩).threadSteps
                = Function.update st.threadSteps t (frame.stepsLeft (k.woken t)) := by
            funext u
            rcases eq_or_ne u t with rfl | other
            · simp [State.threadSteps, State.setThread]
            · have same := woken_of_exec other asleep exec
              simp [State.threadSteps, State.setThread, Function.update_of_ne other, same]
          have callbacks
              : (({ st with kernel := k }).setThread t ⟨(st.thread t).calls, frame⟩).callbackSteps
                = st.callbackSteps := by
            have silent : (st.op t).registers = none := by
              rw [← Option.not_isSome_iff_eq_none, State.op, isSome_registers, keeps]
              exact Bool.false_ne_true
            show (k.rcu.callbacks.map _).sum = _
            rw [Kernel.exec_callbacks exec, silent, Option.toList_none, List.append_nil]
            rfl
          have less : frame.stepsLeft (k.woken t) < st.threadSteps t := Frame.stepsLeft_of_exec exec
          have workless := workload_lt (t := t) (finite_threadSteps few) less
          rw [steps, callbacks]
          simp only [quiet, Bool.false_eq_true, if_false] at fewer
          show workload (Function.update st.threadWakes t frame.wakesLeft) < workload st.threadWakes
            ∨ workload (Function.update st.threadWakes t frame.wakesLeft) = workload st.threadWakes
              ∧ workload (Function.update st.threadSteps t (frame.stepsLeft (k.woken t)))
                  + st.callbackSteps
                < workload st.threadSteps + st.callbackSteps
          omega
  | @softirq n b k next ready exec =>
      have performs := Kernel.exec_performs exec
      have wakes : k.theQueue = st.kernel.theQueue ∧ k.signalled = st.kernel.signalled := by
        rw [performs.queue, performs.signalled]
        obtain ⟨job, s, stage, caller⟩ := b
        cases job <;> cases stage <;> exact ⟨rfl, rfl⟩
      have steps
          : ({ st with kernel := { k with rcu := k.rcu.advance n next } } : State τ).threadSteps
            = st.threadSteps := by
        funext u
        simp only [State.threadSteps, Kernel.woken, wakes.1, wakes.2]
      have left := Rcu.sum_advance Callback.stepsLeft next ready
      have less := Callback.stepsLeft_of_exec exec
      refine .inr ⟨rfl, ?_⟩
      rw [steps]
      show workload st.threadSteps + ((k.rcu.advance n next).callbacks.map _).sum
        < workload st.threadSteps + st.callbackSteps
      rw [rcu_of_softirq exec]
      have sum : st.callbackSteps = (st.kernel.rcu.callbacks.map Callback.stepsLeft).sum := rfl
      omega
  | call user => cases advances
  | signal busy => cases advances
  | reuse freed => cases advances

-----------------------------------------------------------------------------------------
-- At rest
-----------------------------------------------------------------------------------------

/-- The thread sleeps in `tag_receive`, and nothing that happened so far wakes it. -/
def State.Sleeps (st : State τ) (t : τ) : Prop :=
  ∃ f, (st.thread t).frame = .receive f ∧ f.pc = .sleep ∧ st.kernel.KeepsAsleep t

/-- No call is going on but receivers that sleep; nothing is held, deferred or left behind. -/
structure State.AtRest (st : State τ) : Prop where
  threads : ∀ t, (st.thread t).frame.idle = true ∨ st.Sleeps t
  accessLocks : ∀ i, st.kernel.tsm.accessLock i = false
  deviceLocks : ∀ i, st.kernel.dm.deviceLock i = false
  callbacks : st.kernel.rcu.callbacks = []
  readers : st.kernel.rcu.readers = []
  clean
    : ∀ i s,
        st.kernel.tsm.allTagServices i = some s
        → (st.kernel.service s).awakeRequest = false
          ∧ ∀ l,
              ((st.kernel.service s).level l).messageReady = false
              ∧ ∀ n < MAX_MESSAGE_SIZE, ((st.kernel.service s).level l).message n = 0

/-- A callback that may run takes its step. -/
theorem softirq_of_ready {n : Nat} {b : Callback τ} (ready : st.kernel.rcu.ready? n = some b)
    : ∃ st', st.step (.softirq n) = some st' := by
  obtain ⟨job, s, stage, caller⟩ := b
  cases job <;> cases stage <;> exact ⟨_, by simp only [State.step, ready]; rfl⟩

/-- Where neither a call nor a callback can go on, and no call has oopsed, the module is at rest. -/
theorem atRest_of_stuck (run : (machine τ).Run Unheld h st)
    (stuck : (machine τ).Stuck Event.advances st)
    (sound : ∀ t, (st.thread t).frame.oopsed = false)
    : st.AtRest := by
  have nobody (t : τ) : ¬ st.CanGoOn t := by
    rintro ⟨external, st', step⟩
    have never : st.step (.run t external) = none := stuck (.run t external) trivial
    rw [never] at step
    cases step
  have stands (t : τ) : ¬ (st.CanGoOn t ∨ (st.thread t).frame.oopsed = true) := by
    rw [sound t]
    exact fun goes => goes.elim (nobody t) Bool.false_ne_true
  have readers : st.kernel.rcu.readers = [] := by
    refine List.eq_nil_iff_forall_not_mem.mpr fun u inside => ?_
    have counted := count_readers_run run u
    split at counted
    · next section_ => exact stands u (goesOn_of_owner rfl (.inr (.inr section_)))
    · exact absurd (List.count_pos_iff.mpr inside) (by rw [counted]; exact Nat.lt_irrefl 0)
  have callbacks : st.kernel.rcu.callbacks = [] := by
    by_contra waiting
    obtain ⟨b, ready⟩ := (sound_run run).ready readers waiting
    obtain ⟨st', step⟩ := softirq_of_ready ready
    have never : st.step (.softirq 0) = none := stuck (.softirq 0) trivial
    rw [never] at step
    cases step
  have accessLocks (i : Int) : st.kernel.tsm.accessLock i = false := by
    by_contra held
    rcases (owners_go_on run i).access (by simpa using held) with ⟨t, -, goes⟩ | ⟨p, pending, -⟩
    · exact stands t goes
    · have member : p.callback ∈ st.kernel.rcu.callbacks := List.mem_map.mpr ⟨p, pending, rfl⟩
      rw [callbacks] at member
      cases member
  have deviceLocks (i : Int) : st.kernel.dm.deviceLock i = false := by
    by_contra held
    obtain ⟨t, -, goes⟩ := (owners_go_on run i).device (by simpa using held)
    exact stands t goes
  refine ⟨fun t => ?_, accessLocks, deviceLocks, callbacks, readers, fun i s found => ?_⟩
  · rcases canGoOn_or_standing st t with goes | standing
    · exact absurd goes (nobody t)
    · cases standing with
      | returned idle => exact .inl idle
      | accessLock locks held => simp [accessLocks] at held
      | deviceLock locks held => simp [deviceLocks] at held
      | asleep here pc asleep => exact .inr ⟨_, here, pc, asleep⟩
      | oopsed stray => simp [sound t] at stray
  · exact ((Unheld.safe run).lockHandOff i).clean s found (accessLocks i)

end TagExchange
