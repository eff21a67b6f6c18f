import TagExchange.Model.CallerMoves
import TagExchange.Model.ReceiveMoves

/-! What one step of the system does to one thread: nothing, its next step, or the entry into
a call.
-/

namespace TagExchange

open Concurrency

variable {τ : Type}

/-- The turn of a thread in a step. -/
inductive Turn [DecidableEq τ] (st st' : State τ) (e : Event τ) (t : τ) : Prop
  | rest (other : ∀ external, e ≠ .run t external) (thread : st'.thread t = st.thread t)
  | enter {euid c} (event : e = .call t euid c) (idle : (st.thread t).frame.idle = true)
    (thread : st'.thread t = ⟨(st.thread t).calls + 1, c.enter euid⟩)
  | go {external frame} (event : e = .run t external)
    (exec : st.kernel.exec external (st.op t) = some (st'.kernel, frame))
    (thread : st'.thread t = ⟨(st.thread t).calls, frame⟩)

/-- The turn of a thread that is in a call of one kind after the step, with the moves of that
kind.
-/
inductive CallTurn {φ π : Type} (Move : φ → π → Frame → Prop) (wrap : φ → Frame) (pc : φ → π)
    (st st' : State τ) (e : Event τ) (t : τ) (f' : φ)
    : Prop
  | rest (other : ∀ external, e ≠ .run t external) (thread : st'.thread t = st.thread t)
  | enter {euid c} (calls : (st'.thread t).calls = (st.thread t).calls + 1)
    (entered : Syscall.enter euid c = wrap f')
  | move {external f p frame} (event : e = .run t external)
    (before : (st.thread t).frame = wrap f)
    (calls : (st'.thread t).calls = (st.thread t).calls) (here : pc f = p)
    (move : Move f p frame) (after : frame = wrap f')

abbrev GetTurn (st : State τ) : State τ → Event τ → τ → GetFrame → Prop :=
  CallTurn (GetMove st.kernel) .get (·.pc) st

abbrev SendTurn (st : State τ) : State τ → Event τ → τ → SendFrame → Prop :=
  CallTurn (SendMove st.kernel) .send (·.pc) st

abbrev ReceiveTurn (st st' : State τ) (e : Event τ) (t : τ) : ReceiveFrame → Prop :=
  CallTurn (ReceiveMove st.kernel t) .receive (·.pc) st st' e t

abbrev CtlTurn (st : State τ) : State τ → Event τ → τ → CtlFrame → Prop :=
  CallTurn (CtlMove st.kernel) .ctl (·.pc) st

variable [DecidableEq τ] {st st' : State τ} {e : Event τ} {t : τ}

/-- A step is a turn for every thread, by cases on the event. -/
theorem turn_of_step (step : st.step e = some st') (t : τ) : Turn st st' e t := by
  cases State.steps_of_step step with
  | @call u euid c last user =>
      rcases eq_or_ne t u with rfl | other
      · exact .enter rfl (by rw [user]; rfl) (Function.update_self ..)
      · exact .rest (fun _ same => by cases same) (Function.update_of_ne other ..)
  | @run u external k frame exec =>
      rcases eq_or_ne t u with rfl | other
      · exact .go rfl exec (Function.update_self ..)
      · refine .rest (fun _ same => ?_) (Function.update_of_ne other ..)
        cases same
        exact other rfl
  | _ => exact .rest (fun _ same => by cases same) rfl

/-- A thread in a call of one kind has stayed in it, or has just entered it. -/
theorem callTurn_of_step {φ π : Type} {Move : φ → π → Frame → Prop} {wrap : φ → Frame}
    {pc : φ → π}
    (from_ : ∀ {before f'}, before.SameCall (wrap f') → ∃ f, before = wrap f)
    (moves
      : ∀ {external f k frame},
          st.kernel.exec external ((wrap f).op (t, (st.thread t).calls)) = some (k, frame)
          → Move f (pc f) frame)
    (step : st.step e = some st') {f' : φ} (after : (st'.thread t).frame = wrap f')
    : CallTurn Move wrap pc st st' e t f' := by
  cases turn_of_step step t with
  | rest other thread => exact .rest other thread
  | enter event idle thread =>
      rw [thread] at after
      exact .enter (by rw [thread]) after
  | @go external frame event exec thread =>
      rw [thread] at after
      have same := Kernel.exec_sameCall exec
      obtain rfl : frame = wrap f' := after
      obtain ⟨f, before⟩ := from_ same
      rw [State.op, before] at exec
      exact .move event before (by rw [thread]) rfl (moves exec) rfl

theorem getTurn_of_step (step : st.step e = some st') {g' : GetFrame}
    (after : (st'.thread t).frame = .get g')
    : GetTurn st st' e t g' := by
  refine callTurn_of_step (fun {before _} same => ?_) getMove_of_exec step after
  cases before <;> first | exact ⟨_, rfl⟩ | cases same

theorem sendTurn_of_step (step : st.step e = some st') {g' : SendFrame}
    (after : (st'.thread t).frame = .send g')
    : SendTurn st st' e t g' := by
  refine callTurn_of_step (fun {before _} same => ?_) sendMove_of_exec step after
  cases before <;> first | exact ⟨_, rfl⟩ | cases same

theorem receiveTurn_of_step (step : st.step e = some st') {f' : ReceiveFrame}
    (after : (st'.thread t).frame = .receive f')
    : ReceiveTurn st st' e t f' := by
  refine callTurn_of_step (fun {before _} same => ?_) receiveMove_of_exec step after
  cases before <;> first | exact ⟨_, rfl⟩ | cases same

theorem ctlTurn_of_step (step : st.step e = some st') {g' : CtlFrame}
    (after : (st'.thread t).frame = .ctl g')
    : CtlTurn st st' e t g' := by
  refine callTurn_of_step (fun {before _} same => ?_) ctlMove_of_exec step after
  cases before <;> first | exact ⟨_, rfl⟩ | cases same

/-- The calls of a thread are counted upwards, when it enters them from user mode. -/
theorem calls_of_step (step : st.step e = some st') (t : τ)
    : (st'.thread t).calls = (st.thread t).calls
      ∨ ((st'.thread t).calls = (st.thread t).calls + 1 ∧ (st.thread t).frame.idle = true) := by
  cases turn_of_step step t with
  | rest _ thread => exact .inl (by rw [thread])
  | enter _ idle thread => exact .inr ⟨by rw [thread], idle⟩
  | go _ _ thread => exact .inl (by rw [thread])

/-- No moment of a thread is in a call that it has not entered yet. -/
theorem calls_le_of_mem {G : Guard (State τ) (Event τ)} {h : History (State τ) (Event τ)}
    (run : (machine τ).Run G h st) {st₁ : State τ} {e₁ : Event τ}
    (member : (st₁, e₁) ∈ h)
    : (st₁.thread t).calls ≤ (st.thread t).calls := by
  induction run with
  | start => cases member
  | @next h st e st' before ok step ih =>
      have grows : (st.thread t).calls ≤ (st'.thread t).calls := by
        rcases calls_of_step step t with same | ⟨more, -⟩
        · exact Nat.le_of_eq same.symm
        · exact more ▸ Nat.le_succ _
      rcases List.mem_cons.mp member with same | earlier
      · obtain ⟨rfl, rfl⟩ := Prod.mk.inj same
        exact grows
      · exact Nat.le_trans (ih earlier) grows

-----------------------------------------------------------------------------------------
-- Signals
-----------------------------------------------------------------------------------------

/-- The last step of a call. -/
def Frame.leaves : Frame → Bool
  | user _ => false
  | get f => match f.pc with
      | .ret _ => true
      | _ => false
  | send f => match f.pc with
      | .ret _ _ => true
      | _ => false
  | receive f => match f.pc with
      | .ret _ => true
      | _ => false
  | ctl f => match f.pc with
      | .ret _ => true
      | _ => false

/-- A call clears the pending signal of its own thread when it returns, and no other, by
cases on the program point.
-/
theorem op_onSignalled (k : Kernel τ) (c : CallId τ) (frame : Frame)
    : (frame.op c).onSignalled k
      = if frame.leaves then Function.update k.signalled c.1 false else k.signalled := by
  cases frame with
  | user last => rfl
  | get f =>
      obtain ⟨key, command, permission, euid, tag, ts, pc⟩ := f
      cases pc
      case find pc => cases pc <;> rfl
      case device pc => cases pc using CreateDevicePc.points <;> rfl
      all_goals rfl
  | send f =>
      obtain ⟨tag, level, buffer, size, euid, realSize, stored, ts, pc⟩ := f
      cases pc <;> rfl
  | receive f =>
      obtain ⟨tag, level, buffer, size, euid, ts, realSize, interrupted, copied, pc⟩ := f
      cases pc
      case entered pc => cases pc <;> rfl
      case left x pc => cases pc <;> rfl
      all_goals rfl
  | ctl f =>
      obtain ⟨tag, command, euid, ts, index, awakened, pc⟩ := f
      cases pc
      case find pc => cases pc <;> rfl
      case destroy pc => cases pc <;> rfl
      all_goals rfl

/-- A call that leaves is in user mode afterwards, by cases on the program point. -/
theorem idle_of_leaves {k k' : Kernel τ} {external : Nat} {c : CallId τ} {before after : Frame}
    (step : k.exec external (before.op c) = some (k', after)) (leaves : before.leaves = true)
    : after.idle = true := by
  cases before with
  | user last => cases leaves
  | get f =>
      obtain ⟨key, command, permission, euid, tag, ts, pc⟩ := f
      cases pc <;> cases leaves
      obtain ⟨-, rfl⟩ := Prod.mk.inj (Option.some.inj step)
      rfl
  | send f =>
      obtain ⟨tag, level, buffer, size, euid, realSize, stored, ts, pc⟩ := f
      cases pc <;> cases leaves
      obtain ⟨-, rfl⟩ := Prod.mk.inj (Option.some.inj step)
      rfl
  | receive f =>
      obtain ⟨tag, level, buffer, size, euid, ts, realSize, interrupted, copied, pc⟩ := f
      cases pc <;> cases leaves
      obtain ⟨-, rfl⟩ := Prod.mk.inj (Option.some.inj step)
      rfl
  | ctl f =>
      obtain ⟨tag, command, euid, ts, index, awakened, pc⟩ := f
      cases pc <;> cases leaves
      obtain ⟨-, rfl⟩ := Prod.mk.inj (Option.some.inj step)
      rfl

/-- Only a signal to a thread, and its return, change whether it has a signal pending. -/
theorem signalled_of_step (step : st.step e = some st') (t : τ)
    : st'.kernel.signalled t = st.kernel.signalled t
      ∨ (e = .signal t ∧ st'.kernel.signalled t = true)
      ∨ ((∃ external, e = .run t external) ∧ (st'.thread t).frame.idle = true) := by
  cases State.steps_of_step step with
  | @run u external k frame exec =>
      have signalled := (Kernel.exec_performs exec).signalled
      rw [State.op, op_onSignalled] at signalled
      show k.signalled t = _ ∨ _
      rw [signalled]
      split
      · next leaves =>
          rcases eq_or_ne t u with rfl | other
          · refine .inr (.inr ⟨⟨external, rfl⟩, ?_⟩)
            rw [State.setThread_frame, if_pos rfl]
            exact idle_of_leaves exec leaves
          · exact .inl (Function.update_of_ne other ..)
      · exact .inl rfl
  | @softirq n b k next ready exec =>
      have signalled := (Kernel.exec_performs exec).signalled
      refine .inl ?_
      show k.signalled t = _
      rw [signalled]
      obtain ⟨job, s, stage, caller⟩ := b
      cases job <;> cases stage <;> rfl
  | @signal u busy =>
      rcases eq_or_ne t u with rfl | other
      · exact .inr (.inl ⟨rfl, Function.update_self ..⟩)
      · exact .inl (Function.update_of_ne other ..)
  | _ => exact .inl rfl

end TagExchange
