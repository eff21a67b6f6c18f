import TagExchange.Concurrency.GracePeriods
import TagExchange.Model.Oopses
import TagExchange.Properties.DeviceLocks
import TagExchange.Properties.LockHandOff
import TagExchange.Properties.ReadSections

/-! The discipline of the mutexes and of the read-side sections: a call that waits for something
holds nothing that another one could wait for.
-/

namespace TagExchange

open Concurrency Protocol

variable {τ : Type}

/-- Asleep in `wait_event_interruptible`: queued, and without a signal. -/
def Kernel.KeepsAsleep (k : Kernel τ) (t : τ) : Prop :=
  t ∈ k.theQueue ∧ k.signalled t = false

/-- What the next operation of a call has to wait for, or may have to. -/
def Frame.waitsFor (frame : Frame) (c : CallId τ) : Prop :=
  (∃ i, (frame.op c).locks = some i) ∨ (∃ i, frame.device = some (.lock i))
  ∨ ∃ f, frame = .receive f ∧ f.pc = .sleep

/-- The reasons for which a thread cannot take its next step. -/
inductive Standing (k : Kernel τ) (c : CallId τ) (frame : Frame) : Prop
  | returned (idle : frame.idle = true)
  | accessLock {i} (locks : (frame.op c).locks = some i) (held : k.tsm.accessLock i = true)
  | deviceLock {i} (locks : frame.device = some (.lock i)) (held : k.dm.deviceLock i = true)
  | asleep {f} (here : frame = .receive f) (pc : f.pc = .sleep) (asleep : k.KeepsAsleep c.1)
  | oopsed (stray : frame.oopsed = true)

variable [DecidableEq τ] {k k' : Kernel τ} {external : Nat}

/-- There are no other reasons, by cases on the program point. -/
theorem standing_of_stuck {c : CallId τ} {frame : Frame}
    (stuck : k.exec 0 (frame.op c) = none)
    : Standing k c frame := by
  cases frame with
  | user last => exact .returned rfl
  | get f =>
      obtain ⟨key, command, permission, euid, tag, ts, pc⟩ := f
      cases pc
      case find pc => cases pc <;> cases stuck
      case device pc =>
        cases pc using CreateDevicePc.points
        case lock ts =>
          simp only [Frame.op, tagGet, tsCreateCharDeviceFile, Op.map, Kernel.exec] at stuck
          exact .deviceLock rfl (by simpa using stuck)
        case fillNothing => exact .oopsed rfl
        case oops => exact .oopsed rfl
        all_goals cases stuck
      case lock =>
        simp only [Frame.op, tagGet, Kernel.exec] at stuck
        exact .accessLock rfl (by simpa using stuck)
      case oops => exact .oopsed rfl
      all_goals cases stuck
  | send f =>
      obtain ⟨tag, level, buffer, size, euid, realSize, stored, ts, pc⟩ := f
      cases pc
      case copyFromUser => simp [Frame.op, tagSend, Kernel.exec] at stuck
      case lock =>
        simp only [Frame.op, tagSend, Kernel.exec] at stuck
        exact .accessLock rfl (by simpa using stuck)
      case oops => exact .oopsed rfl
      all_goals cases stuck
  | receive f =>
      obtain ⟨tag, level, buffer, size, euid, ts, realSize, interrupted, copied, pc⟩ := f
      cases pc
      case entered pc =>
        cases pc
        case lock i n =>
          simp only [Frame.op, tagReceive, updateChrdev, Op.map, Kernel.exec] at stuck
          exact .deviceLock rfl (by simpa using stuck)
        case oops => exact .oopsed rfl
        all_goals cases stuck
      case left x pc =>
        cases pc
        case lock i n =>
          simp only [Frame.op, tagReceive, updateChrdev, Op.map, Kernel.exec] at stuck
          exact .deviceLock rfl (by simpa using stuck)
        case oops => exact .oopsed rfl
        all_goals cases stuck
      case sleep =>
        simp only [Frame.op, tagReceive, Kernel.exec] at stuck
        exact .asleep rfl rfl (by simpa [Kernel.KeepsAsleep] using stuck)
      all_goals cases stuck
  | ctl f =>
      obtain ⟨tag, command, euid, ts, index, awakened, pc⟩ := f
      cases pc
      case find pc => cases pc <;> cases stuck
      case destroy pc =>
        cases pc
        case lock =>
          simp only [Frame.op, tagCtl, tsDestroyCharDeviceFile, Op.map, Kernel.exec] at stuck
          exact .deviceLock rfl (by simpa using stuck)
        all_goals cases stuck
      case lock =>
        simp only [Frame.op, tagCtl, Kernel.exec] at stuck
        exact .accessLock rfl (by simpa using stuck)
      all_goals cases stuck

-----------------------------------------------------------------------------------------
-- What a waiting call holds
-----------------------------------------------------------------------------------------

omit [DecidableEq τ] in
/-- A call that may have to wait holds no mutex and is in no section, by cases on the program
point.
-/
theorem holdsNothing_of_waitsFor {c : CallId τ} {frame : Frame} (waits : frame.waitsFor c)
    : frame.holds = none ∧ frame.deviceHolds = none ∧ frame.inSection = false := by
  rcases waits with ⟨i, locks⟩ | ⟨i, locks⟩ | ⟨f, rfl, pc⟩
  · cases frame with
    | user last => cases locks
    | get f =>
        obtain ⟨key, command, permission, euid, tag, ts, pc⟩ := f
        cases pc
        case find pc => cases pc <;> cases locks
        case device pc => cases pc using CreateDevicePc.points <;> cases locks
        all_goals cases locks
        exact ⟨rfl, rfl, rfl⟩
    | send f =>
        obtain ⟨tag, level, buffer, size, euid, realSize, stored, ts, pc⟩ := f
        cases pc <;> cases locks
        exact ⟨rfl, rfl, rfl⟩
    | receive f =>
        obtain ⟨tag, level, buffer, size, euid, ts, realSize, interrupted, copied, pc⟩ := f
        cases pc
        case entered pc => cases pc <;> cases locks
        case left x pc => cases pc <;> cases locks
        all_goals cases locks
    | ctl f =>
        obtain ⟨tag, command, euid, ts, index, awakened, pc⟩ := f
        cases pc
        case find pc => cases pc <;> cases locks
        case destroy pc => cases pc <;> cases locks
        all_goals cases locks
        exact ⟨rfl, rfl, rfl⟩
  · cases frame with
    | user last => cases locks
    | get f =>
        obtain ⟨key, command, permission, euid, tag, ts, pc⟩ := f
        cases pc
        case device pc =>
          cases pc <;> cases locks
          exact ⟨rfl, rfl, rfl⟩
        all_goals cases locks
    | send f => cases locks
    | receive f =>
        obtain ⟨tag, level, buffer, size, euid, ts, realSize, interrupted, copied, pc⟩ := f
        cases pc
        case entered pc =>
          cases pc <;> cases locks
          exact ⟨rfl, rfl, rfl⟩
        case left x pc =>
          cases pc <;> cases locks
          exact ⟨rfl, rfl, rfl⟩
        all_goals cases locks
    | ctl f =>
        obtain ⟨tag, command, euid, ts, index, awakened, pc⟩ := f
        cases pc
        case destroy pc =>
          cases pc <;> cases locks
          exact ⟨rfl, rfl, rfl⟩
        all_goals cases locks
  · obtain ⟨tag, level, buffer, size, euid, ts, realSize, interrupted, copied, pc'⟩ := f
    obtain rfl : pc' = .sleep := pc
    exact ⟨rfl, rfl, rfl⟩

-----------------------------------------------------------------------------------------
-- Read-side sections
-----------------------------------------------------------------------------------------

variable {h : History (State τ) (Event τ)} {st st' : State τ} {e : Event τ} {t : τ}
  {G : Guard (State τ) (Event τ)}

/-- The readers after the next step of a call. -/
def Frame.onReaders (t : τ) (readers : List τ) : Frame → List τ
  | receive f =>
      match f.pc with
      | .rcuLock => t :: readers
      | .rcuUnlock _ => readers.erase t
      | _ => readers
  | _ => readers

/-- Only receivers open and close sections, by cases on the program point. -/
theorem op_onReaders (k : Kernel τ) (c : CallId τ) (frame : Frame)
    : ((frame.op c).onRcu k).readers = frame.onReaders c.1 k.rcu.readers := by
  cases frame with
  | user last => rfl
  | get f =>
      obtain ⟨key, command, permission, euid, tag, ts, pc⟩ := f
      cases pc
      case find pc => cases pc <;> rfl
      case device pc => cases pc using CreateDevicePc.points <;> rfl
      all_goals rfl
  | send f =>
      obtain ⟨tag, level, buffer, size, euid, realSize, stored, ts, pc⟩ := f
      cases pc <;> rfl
  | receive f =>
      obtain ⟨tag, level, buffer, size, euid, ts, realSize, interrupted, copied, pc⟩ := f
      cases pc
      case entered pc => cases pc <;> rfl
      case left x pc => cases pc <;> rfl
      all_goals rfl
  | ctl f =>
      obtain ⟨tag, command, euid, ts, index, awakened, pc⟩ := f
      cases pc
      case find pc => cases pc <;> rfl
      case destroy pc => cases pc <;> rfl
      all_goals rfl

theorem readers_of_exec {c : CallId τ} {before after : Frame}
    (exec : k.exec external (before.op c) = some (k', after))
    : k'.rcu.readers = before.onReaders c.1 k.rcu.readers := by
  rw [(Kernel.exec_performs exec).rcu, op_onReaders]

/-- The sections of the other threads are not touched by a step of a call. -/
theorem count_readers_of_exec {c : CallId τ} {before after : Frame}
    (exec : k.exec external (before.op c) = some (k', after)) (other : t ≠ c.1)
    : k'.rcu.readers.count t = k.rcu.readers.count t := by
  rw [readers_of_exec exec]
  cases before with
  | receive f =>
      simp only [Frame.onReaders]
      split
      · exact List.count_cons_of_ne other.symm
      · exact List.count_erase_of_ne other
      · rfl
  | _ => rfl

/-- A thread is among the readers once while it is inside its section, and not otherwise, by cases on
the moves.
-/
theorem count_readers_run (run : (machine τ).Run G h st)
    : ∀ t, st.kernel.rcu.readers.count t = if (st.thread t).frame.inSection then 1 else 0 := by
  refine run.invariant
    (P := fun _ st => ∀ t,
      st.kernel.rcu.readers.count t = if (st.thread t).frame.inSection then 1 else 0)
    (fun t => rfl) ?_
  intro h st e st' before counted _ step t
  have step : st.step e = some st' := step
  have readers (other : ∀ external, e ≠ .run t external)
      : st'.kernel.rcu.readers.count t = st.kernel.rcu.readers.count t := by
    cases State.steps_of_step step with
    | @run u external k frame exec =>
        refine count_readers_of_exec exec fun same => ?_
        exact other external (by rw [show t = u from same])
    | @softirq n b k next ready exec =>
        show (k.rcu.advance n next).readers.count t = _
        rw [Rcu.readers_advance, rcu_of_softirq exec]
    | _ => rfl
  cases turn_of_step step t with
  | rest other thread => rw [thread, readers other, counted t]
  | @enter euid c event idle thread =>
      have outside : (st.thread t).frame.inSection = false := by
        obtain ⟨last, user⟩ := Frame.eq_user_of_idle idle
        rw [user]
        rfl
      rw [readers (by rintro external rfl; cases event), counted t, outside, thread]
      cases c <;> rfl
  | @go external frame event exec thread =>
      have now := readers_of_exec exec
      have same := Kernel.exec_sameCall exec
      have old := counted t
      rw [thread]
      cases here : (st.thread t).frame with
      | receive f =>
          rw [State.op, here] at exec
          rw [here] at old now
          have move := receiveMove_of_exec exec
          obtain ⟨tag, level, buffer, size, euid, ts, realSize, interrupted, copied, pc⟩ := f
          change ReceiveMove st.kernel t _ pc frame at move
          rw [now]
          cases move with
          | rcuLock => exact List.count_cons_self.trans (by rw [old]; rfl)
          | rcuUnlock => exact List.count_erase_self.trans (by rw [old]; rfl)
          | _ => exact old
      | _ =>
          rw [here] at old now same
          rw [now]
          cases frame <;> first | exact old | cases same

/-- No callback waits for a section that has been closed, by cases on the operation. -/
theorem sound_run (run : (machine τ).Run G h st) : st.kernel.rcu.Sound := by
  refine run.invariant (P := fun _ st => st.kernel.rcu.Sound) (fun _ none_ => nomatch none_) ?_
  intro h st e st' _ x _ step
  cases State.steps_of_step step with
  | @run t external k frame exec =>
      show k.rcu.Sound
      rw [(Kernel.exec_performs exec).rcu]
      generalize st.op t = op
      cases op
      case rcuReadLock u next => exact x.readLock u
      case rcuReadUnlock u next => exact x.readUnlock u
      case callRcu b next => exact x.callRcu b
      all_goals exact x
  | @softirq n b k next ready exec =>
      show (k.rcu.advance n next).Sound
      rw [rcu_of_softirq exec]
      exact x.advance n next
  | _ => exact x

-----------------------------------------------------------------------------------------
-- Owners go on
-----------------------------------------------------------------------------------------

/-- The thread can take its next step. -/
def State.CanGoOn (st : State τ) (t : τ) : Prop :=
  ∃ external st', st.step (.run t external) = some st'

theorem canGoOn_or_standing (st : State τ) (t : τ)
    : st.CanGoOn t ∨ Standing st.kernel (t, (st.thread t).calls) (st.thread t).frame := by
  cases exec : st.kernel.exec 0 (st.op t) with
  | none => exact .inr (standing_of_stuck exec)
  | some next => exact .inl ⟨0, _, by simp only [State.step, exec]; rfl⟩

/-- A thread that owns something goes on, unless it has oopsed. -/
theorem goesOn_of_owner {t : τ} {frame : Frame} (here : (st.thread t).frame = frame)
    (owns : frame.holds ≠ none ∨ frame.deviceHolds ≠ none ∨ frame.inSection = true)
    : st.CanGoOn t ∨ frame.oopsed = true := by
  subst here
  have waits (waiting : (st.thread t).frame.waitsFor (t, (st.thread t).calls)) : False := by
    obtain ⟨access, device, outside⟩ := holdsNothing_of_waitsFor waiting
    rcases owns with holds | holds | inside
    · exact holds access
    · exact holds device
    · simp [outside] at inside
  rcases canGoOn_or_standing st t with go | standing
  · exact .inl go
  · cases standing with
    | returned idle =>
        obtain ⟨last, user⟩ := Frame.eq_user_of_idle idle
        rw [user] at owns
        rcases owns with holds | holds | inside
        · exact absurd rfl holds
        · exact absurd rfl holds
        · cases inside
    | accessLock locks _ => exact (waits (.inl ⟨_, locks⟩)).elim
    | deviceLock locks _ => exact (waits (.inr (.inl ⟨_, locks⟩))).elim
    | asleep here pc _ => exact (waits (.inr (.inr ⟨_, here, pc⟩))).elim
    | oopsed stray => exact .inr stray

omit [DecidableEq τ] in
/-- A receiver follows no pointer inside its section. -/
theorem not_oopsed_of_inSection {frame : Frame} (inside : frame.inSection = true)
    : frame.oopsed = false := by
  cases frame with
  | receive f =>
      obtain ⟨tag, level, buffer, size, euid, ts, realSize, interrupted, copied, pc⟩ := f
      cases pc <;> first | rfl | cases inside
  | _ => cases inside

/-- Who owns a mutex of the registry: a call that goes on, or a callback that waits for nobody but
receivers that go on. Who owns the mutex of a device: a call that goes on. The exception is a call
that has oopsed.
-/
structure OwnersGoOn (st : State τ) (i : Int) : Prop where
  access
    : st.kernel.tsm.accessLock i = true
      → (∃ t, (st.thread t).frame.holds = some i
          ∧ (st.CanGoOn t ∨ (st.thread t).frame.oopsed = true))
        ∨ ∃ p ∈ st.kernel.rcu.pending,
            (st.kernel.service p.callback.service).tag = i ∧ ∀ u ∈ p.waits, st.CanGoOn u
  device
    : st.kernel.dm.deviceLock i = true
      → ∃ t,
          (st.thread t).frame.deviceHolds = some i
          ∧ (st.CanGoOn t ∨ (st.thread t).frame.oopsed = true)

/-- In every reachable state every mutex that is taken is on its way back. -/
theorem owners_go_on (run : (machine τ).Run Unheld h st) (i : Int) : OwnersGoOn st i := by
  have laws := (Unheld.safe run).lockHandOff i
  have reader {u : τ} (inside : u ∈ st.kernel.rcu.readers) : st.CanGoOn u := by
    have section_ : (st.thread u).frame.inSection = true := by
      have counted := count_readers_run run u
      split at counted
      · assumption
      · exact absurd (List.count_pos_iff.mpr inside) (by rw [counted]; exact Nat.lt_irrefl 0)
    refine (goesOn_of_owner rfl (.inr (.inr section_))).resolve_right ?_
    rw [not_oopsed_of_inSection section_]
    exact Bool.false_ne_true
  refine ⟨fun held => ?_, fun held => ?_⟩
  · rcases laws.held.mp held with ⟨t, holds⟩ | ⟨n, b, found, tag⟩
    · exact .inl ⟨t, holds, goesOn_of_owner rfl (.inl (by simp [holds]))⟩
    · have registered : b ∈ st.kernel.rcu.callbacks :=
        (Rcu.mem_among.mp (List.mem_of_getElem? found)).1
      obtain ⟨p, pending, rfl⟩ := List.mem_map.mp registered
      refine .inr ⟨p, pending, tag, fun u waits => reader (List.count_pos_iff.mp ?_)⟩
      exact Nat.lt_of_lt_of_le (List.count_pos_iff.mpr waits) (sound_run run p pending u)
  · rcases ((exclusive_run run).held i).mp held with ⟨t, holds⟩ | none_
    · exact ⟨t, holds, goesOn_of_owner rfl (.inr (.inl (by simp [holds])))⟩
    · cases none_

instance [Fintype τ] (h : History (State τ) (Event τ)) (st : State τ) (e : Event τ)
    : Decidable (Unheld h st e) :=
  inferInstanceAs (Decidable (ReuseUnheld st e))

/-- A message has been sent to a reader that is inside its section: the mutex comes back from the
callback, which waits for that reader.
-/
theorem owners_go_on_of_callback
    : ∃ h st,
        (machine (Fin 2)).Run Unheld h st
        ∧ (st.kernel.tsm.accessLock 1 = true ∧ st.kernel.rcu.readers = [1])
        ∧ OwnersGoOn st 1 := by
  obtain ⟨h, st, run, facts⟩ := Machine.Run.exists_of_replay
    (M := machine (Fin 2)) (G := Unheld)
    (creating 0 1 ++ fallingAsleep 1 1 0 ++ sending 0 1 0 [104, 105] 13 ++ runs 1 6 ++ runs 0 3)
    (fun _ st => st.kernel.tsm.accessLock 1 && st.kernel.rcu.readers == [1]
      && st.kernel.rcu.callbacks.length == 1)
    (by decide +kernel)
  simp only [Bool.and_eq_true, beq_iff_eq] at facts
  exact ⟨h, st, run, facts.1, owners_go_on run 1⟩

end TagExchange
