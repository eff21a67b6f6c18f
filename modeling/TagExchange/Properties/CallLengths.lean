import TagExchange.Concurrency.Tally
import TagExchange.Model.StepsLeft
import TagExchange.Properties.NoLostMessage

/-! How many steps a call makes at most, whatever the others do meanwhile. Only a wake-up or a signal
takes a receiver through its loop once more.
-/

namespace TagExchange

open Concurrency

variable {τ : Type} [DecidableEq τ] {h : History (State τ) (Event τ)} {st st' : State τ}
  {e : Event τ} {t : τ} {n : Nat} {G : Guard (State τ) (Event τ)}

/-- The event wakes all threads that sleep, or is a signal for this one. -/
def State.rouses (st : State τ) (t : τ) : Event τ → Bool
  | .run u _ => (st.thread u).frame.wakesAll
  | .signal u => u == t
  | _ => false

/-- The steps that a thread has made in one of its calls. -/
def stepsMade (h : History (State τ) (Event τ)) (t : τ) (n : Nat) : Nat :=
  tally (fun st e => e.runner == some t && (st.thread t).calls == n) h

/-- The wake-ups and signals during one of its calls. -/
def timesRoused (h : History (State τ) (Event τ)) (t : τ) (n : Nat) : Nat :=
  tally (fun st e => st.rouses t e && (st.thread t).calls == n) h

/-- The most steps of a call from its entry to its return. -/
def Frame.allowance (roused : Nat) : Frame → Nat
  | user _ => 0
  | get _ => 601
  | send _ => 17
  | receive _ => 41 + 4 * roused
  | ctl _ => 539

/-- A receiver that is woken has four steps more to make, by cases on the program point. -/
theorem ReceivePc.stepsLeft_le (pc : ReceivePc) (woken woken' interrupted : Bool)
    : pc.stepsLeft woken' interrupted
      ≤ pc.stepsLeft woken interrupted + if woken' && !woken then 4 else 0 := by
  cases pc
  case testReady => cases woken <;> cases woken' <;> cases interrupted <;> decide
  case testAwake => cases woken <;> cases woken' <;> cases interrupted <;> decide
  case sleep => cases woken <;> cases woken' <;> exact Nat.le_of_ble_eq_true rfl
  all_goals exact Nat.le_add_right ..

/-- A call that is woken meanwhile stays within its allowance. -/
theorem Frame.within_of_woken {frame : Frame} {made roused roused' : Nat} {woken woken' : Bool}
    (within : made + frame.stepsLeft woken ≤ frame.allowance roused)
    (counted : roused + (if woken' && !woken then 1 else 0) ≤ roused')
    : made + frame.stepsLeft woken' ≤ frame.allowance roused' := by
  cases frame with
  | receive f =>
      have more := f.pc.stepsLeft_le woken woken' f.interrupted
      have within : made + f.pc.stepsLeft woken f.interrupted ≤ 41 + 4 * roused := within
      show made + f.pc.stepsLeft woken' f.interrupted ≤ 41 + 4 * roused'
      split at more <;> simp_all <;> omega
  | _ => exact within

theorem Frame.allowance_of_sameCall {before after : Frame} (same : before.SameCall after)
    (busy : after.idle = false) (roused : Nat)
    : after.allowance roused = before.allowance roused := by
  cases before <;> cases after <;> first | rfl | (cases busy; done) | cases same

/-- A thread is woken by a wake-up or by a signal, when it is not its own step. -/
theorem woken_of_step (step : st.step e = some st') (other : ∀ external, e ≠ .run t external)
    (quiet : st.rouses t e = false)
    : st'.kernel.woken t = st.kernel.woken t := by
  cases State.steps_of_step step with
  | @run u external k frame exec =>
      refine woken_of_exec (fun same => ?_) quiet exec
      exact other external (by rw [show t = u from same])
  | @softirq n b k next ready exec =>
      have performs := Kernel.exec_performs exec
      show k.woken t = _
      rw [Kernel.woken, Kernel.woken, performs.queue, performs.signalled]
      obtain ⟨job, s, stage, caller⟩ := b
      cases job <;> cases stage <;> rfl
  | @signal u busy =>
      have apart : t ≠ u := by
        rintro rfl
        simp [State.rouses] at quiet
      show (Function.update st.kernel.signalled u true t || _) = _
      rw [Function.update_of_ne apart]
      rfl
  | _ => rfl

/-- A call that has just been entered has made no step. -/
theorem stepsMade_of_new (run : (machine τ).Run G h st) (new : (st.thread t).calls < n)
    : stepsMade h t n = 0 := by
  refine List.countP_eq_zero.mpr fun moment member made => ?_
  obtain ⟨st₁, e₁⟩ := moment
  have earlier := calls_le_of_mem (t := t) run member
  have same : (st₁.thread t).calls = n := by simpa using (Bool.and_eq_true_iff.mp made).2
  omega

/-- In every run the steps that a call has made and those that it has left stay within its allowance:
601 for `tag_get`, 17 for `tag_send`, 539 for `tag_ctl`, and 41 for `tag_receive` with four for every
wake-up and every signal.
-/
theorem steps_within_allowance (run : (machine τ).Run G h st) (t : τ)
    (busy : (st.thread t).frame.idle = false)
    : stepsMade h t (st.thread t).calls + (st.thread t).frame.stepsLeft (st.kernel.woken t)
      ≤ (st.thread t).frame.allowance (timesRoused h t (st.thread t).calls) := by
  refine run.invariant
    (P := fun h st => (st.thread t).frame.idle = false
      → stepsMade h t (st.thread t).calls + (st.thread t).frame.stepsLeft (st.kernel.woken t)
        ≤ (st.thread t).frame.allowance (timesRoused h t (st.thread t).calls))
    (fun busy => by cases busy) ?_ busy
  intro h st e st' before within _ step busy
  have step : st.step e = some st' := step
  cases turn_of_step step t with
  | rest other thread =>
      rw [thread] at busy ⊢
      have old := within busy
      have runner : (e.runner == some t) = false := by
        cases e with
        | run u external =>
            refine beq_eq_false_iff_ne.mpr fun same => ?_
            exact other external (by rw [show u = t from Option.some.inj same])
        | _ => rfl
      have made : stepsMade ((st, e) :: h) t (st.thread t).calls
          = stepsMade h t (st.thread t).calls := by
        rw [stepsMade, tally_cons, runner]
        rfl
      rw [made]
      refine Frame.within_of_woken old ?_
      rw [timesRoused, timesRoused, tally_cons, beq_self_eq_true, Bool.and_true]
      refine Nat.add_le_add_left ?_ _
      cases quiet : st.rouses t e with
      | true => split <;> decide
      | false => simp [woken_of_step step other quiet]
  | @enter euid c event idle thread =>
      have new := stepsMade_of_new (n := (st.thread t).calls + 1) before (Nat.lt_succ_self _)
      have made : stepsMade ((st, e) :: h) t ((st.thread t).calls + 1) = 0 := by
        rw [stepsMade, tally_cons]
        simp only [event, Event.runner]
        exact new
      rw [thread]
      show stepsMade ((st, e) :: h) t ((st.thread t).calls + 1) + _ ≤ _
      rw [made]
      cases c with
      | tagReceive tag level buffer size =>
          show 0 + 41 ≤ 41 + 4 * _
          omega
      | _ => exact Nat.le_of_ble_eq_true rfl
  | @go external frame event exec thread =>
      subst event
      have less
          : frame.stepsLeft (st'.kernel.woken t)
            < (st.thread t).frame.stepsLeft (st.kernel.woken t) :=
        Frame.stepsLeft_of_exec exec
      have going : (st.thread t).frame.idle = false := by
        cases here : (st.thread t).frame with
        | user last => rw [State.op, here] at exec; cases exec
        | _ => rfl
      have made : stepsMade ((st, .run t external) :: h) t (st.thread t).calls
          = stepsMade h t (st.thread t).calls + 1 := by
        rw [stepsMade, tally_cons]
        simp [Event.runner, stepsMade]
      have roused : timesRoused h t (st.thread t).calls
          ≤ timesRoused ((st, .run t external) :: h) t (st.thread t).calls := by
        rw [timesRoused, timesRoused, tally_cons]
        exact Nat.le_add_right ..
      have old
          : stepsMade h t (st.thread t).calls
              + (st.thread t).frame.stepsLeft (st.kernel.woken t)
            ≤ (st.thread t).frame.allowance
                (timesRoused ((st, .run t external) :: h) t (st.thread t).calls) :=
        Frame.within_of_woken (within going) (by simpa)
      rw [thread] at busy ⊢
      rw [Frame.allowance_of_sameCall (Kernel.exec_sameCall exec) busy]
      show stepsMade ((st, .run t external) :: h) t (st.thread t).calls
          + frame.stepsLeft (st'.kernel.woken t)
        ≤ (st.thread t).frame.allowance
            (timesRoused ((st, .run t external) :: h) t (st.thread t).calls)
      rw [made]
      omega

/-- A receiver that sleeps has made twenty steps; one that has been woken and gone to sleep again,
twenty-four.
-/
theorem steps_within_allowance_of_sleeper
    : ∃ h st,
        (machine (Fin 2)).Run anyStep h st
        ∧ (stepsMade h 1 1 = 24 ∧ timesRoused h 1 1 = 1)
        ∧ stepsMade h 1 (st.thread 1).calls + (st.thread 1).frame.stepsLeft (st.kernel.woken 1)
          ≤ (st.thread 1).frame.allowance (timesRoused h 1 (st.thread 1).calls) := by
  obtain ⟨h, st, run, facts⟩ := Machine.Run.exists_of_replay
    (M := machine (Fin 2)) (G := anyStep)
    (creating 0 1 ++ fallingAsleep 1 1 0 ++ sending 0 1 3 [104, 105] 14 ++ runs 1 4)
    (fun h st => stepsMade h 1 1 == 24 && timesRoused h 1 1 == 1 && !(st.thread 1).frame.idle)
    (by decide +kernel)
  simp only [Bool.and_eq_true, beq_iff_eq, Bool.not_eq_true'] at facts
  exact ⟨h, st, run, facts.1, steps_within_allowance run 1 facts.2⟩

end TagExchange
