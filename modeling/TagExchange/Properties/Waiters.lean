import TagExchange.Concurrency.Census
import TagExchange.Model.ReceiveMoves
import TagExchange.Properties.Registered

/-! The counter of the threads waiting on a service, and the removal that tests it. -/

namespace TagExchange

open Concurrency Protocol

variable {τ : Type}

-----------------------------------------------------------------------------------------
-- Receivers and removals
-----------------------------------------------------------------------------------------

/-- The service on which a receiver is about to register. -/
def Frame.registers : Frame → Option Ref
  | receive f =>
      match f.pc with
      | .incCount => some f.ts
      | _ => none
  | _ => none

/-- The service that counts a receiver: between the increment and the decrement of
`thread_waiting_message_count`.
-/
def Frame.registered : Frame → Option Ref
  | receive f =>
      match f.pc with
      | .entry | .load | .lazyDeleted | .permission | .incCount | .decLevel _ | .left _ _ | .print
      | .ret _ => none
      | .incLevel | .entered _ | .firstReady | .firstAwake | .prepare | .testReady | .testAwake
      | .sleep | .finish | .rcuLock | .signal | .ready | .size | .copy | .rcuUnlock _
      | .decCount _ => some f.ts
  | _ => none

/-- The service that a removal has found without waiting threads and is about to mark. -/
def Frame.marks : Frame → Option Ref
  | ctl f =>
      match f.pc with
      | .delete => some f.ts
      | _ => none
  | _ => none

/-- The service that a removal has marked as deleted and not freed yet. -/
def Frame.marked : Frame → Option Ref
  | ctl f =>
      match f.pc with
      | .unlockIndex .destroy | .unlock .destroy | .destroyIndex | .destroy _ | .unlink | .find _
      | .incRemaining | .kfree => some f.ts
      | _ => none
  | _ => none

/-- What a step of a call does to the counter of waiting threads. -/
inductive CounterStep (before after : Frame) : Prop
  | quiet (same : after.registered = before.registered)
    (kept : ∀ s w n, before.writes = some (s, w) → w.onCount n = n)
  | join {s} (registers : before.registers = some s) (out : before.registered = none)
    (now : after.registered = some s) (writes : before.writes = some (s, .incCount))
  | leave {s} (here : before.registered = some s) (gone : after.registered = none)
    (writes : before.writes = some (s, .decCount))

theorem registered_mem_pointers {frame : Frame} {s : Ref} (registered : frame.registered = some s)
    : s ∈ frame.pointers := by
  cases frame with
  | receive f =>
      obtain ⟨tag, level, buffer, size, euid, ts, realSize, interrupted, copied, pc⟩ := f
      cases pc <;> cases registered
      all_goals first | exact List.mem_singleton_self _ | exact List.mem_cons_self ..
  | _ => cases registered

theorem registers_mem_pointers {frame : Frame} {s : Ref} (registers : frame.registers = some s)
    : s ∈ frame.pointers := by
  cases frame with
  | receive f =>
      obtain ⟨tag, level, buffer, size, euid, ts, realSize, interrupted, copied, pc⟩ := f
      cases pc <;> cases registers
      exact List.mem_singleton_self _
  | _ => cases registers

theorem marked_mem_pointers {frame : Frame} {s : Ref} (marked : frame.marked = some s)
    : s ∈ frame.pointers := by
  cases frame with
  | ctl f =>
      obtain ⟨tag, command, euid, ts, index, awakened, pc⟩ := f
      rcases pc with _ | _ | _ | _ | _ | _ | _ | _ | (_ | _ | _) | (_ | _ | _) | _ | _ | _ | _ | _
        | _ | _ | _ | _ | _ | _ | _ | _ <;> cases marked
      all_goals exact List.mem_singleton_self _
  | _ => cases marked

theorem marks_of_writes {frame : Frame} {s : Ref} (writes : frame.writes = some (s, .lazyDeleted))
    : frame.marks = some s := by
  cases frame with
  | send f =>
      obtain ⟨tag, level, buffer, size, euid, realSize, stored, ts, pc⟩ := f
      cases pc <;> cases writes
  | receive f =>
      obtain ⟨tag, level, buffer, size, euid, ts, realSize, interrupted, copied, pc⟩ := f
      cases pc <;> cases writes
  | ctl f =>
      obtain ⟨tag, command, euid, ts, index, awakened, pc⟩ := f
      cases pc <;> cases writes
      rfl
  | _ => cases writes

theorem marked_of_emptied {frame : Frame} {s : Ref} (emptied : frame.emptied = some s)
    : frame.marked = some s := by
  cases frame with
  | ctl f =>
      obtain ⟨tag, command, euid, ts, index, awakened, pc⟩ := f
      cases pc <;> cases emptied
      all_goals rfl
  | _ => cases emptied

variable [DecidableEq τ] {k k' : Kernel τ} {external : Nat} {frame : Frame}

/-- The counter is incremented where a receiver registers and decremented where it leaves, by
cases on its move.
-/
theorem counterStep_of_exec {c : CallId τ} {before : Frame}
    (step : k.exec external (before.op c) = some (k', frame))
    : CounterStep before frame := by
  have same := Kernel.exec_sameCall step
  cases before with
  | receive f =>
      have move := receiveMove_of_exec step
      obtain ⟨tag, level, buffer, size, euid, ts, realSize, interrupted, copied, pc⟩ := f
      cases move with
      | incCount => exact .join rfl rfl rfl rfl
      | decCount => exact .leave rfl rfl rfl
      | incLevel => exact .quiet rfl fun _ _ _ writes => by cases writes; rfl
      | decLevel => exact .quiet rfl fun _ _ _ writes => by cases writes; rfl
      | _ => exact .quiet rfl fun _ _ _ writes => by cases writes
  | user last => cases step
  | get f =>
      refine .quiet ?_ fun _ _ _ writes => by cases writes
      cases frame <;> first | rfl | cases same
  | send f =>
      refine .quiet ?_ fun s w n writes => ?_
      · cases frame <;> first | rfl | cases same
      · obtain ⟨tag, level, buffer, size, euid, realSize, stored, ts, pc⟩ := f
        cases pc <;> cases writes
        all_goals rfl
  | ctl f =>
      refine .quiet ?_ fun s w n writes => ?_
      · cases frame <;> first | rfl | cases same
      · obtain ⟨tag, command, euid, ts, index, awakened, pc⟩ := f
        cases pc <;> cases writes
        all_goals rfl

/-- A removal comes to marking a service only when it has found its counter zero. -/
theorem marks_of_exec {c : CallId τ} {before : Frame} {s : Ref}
    (step : k.exec external (before.op c) = some (k', frame)) (marks : frame.marks = some s)
    : s ∈ before.pointers ∧ (k.service s).threadWaitingMessageCount = 0
      ∧ before.registered = none ∧ before.writes = none := by
  have same := Kernel.exec_sameCall step
  cases before with
  | ctl f =>
      have move := ctlMove_of_exec step
      obtain ⟨tag, command, euid, ts, index, awakened, pc⟩ := f
      cases move with
      | unattended nobody =>
          cases marks
          exact ⟨List.mem_singleton_self _, nobody, rfl, rfl⟩
      | _ => cases marks
  | _ => cases frame <;> first | cases marks | cases same

theorem marked_of_exec {c : CallId τ} {before : Frame} {s : Ref}
    (step : k.exec external (before.op c) = some (k', frame)) (marked : frame.marked = some s)
    : before.marked = some s ∨ before.writes = some (s, .lazyDeleted) := by
  have same := Kernel.exec_sameCall step
  cases before with
  | ctl f =>
      have move := ctlMove_of_exec step
      obtain ⟨tag, command, euid, ts, index, awakened, pc⟩ := f
      cases move with
      | delete =>
          cases marked
          exact .inr rfl
      | @unlockIndex after =>
          cases after <;> exact .inl marked
      | _ => first | exact .inl marked | cases marked
  | _ => cases frame <;> first | cases marked | cases same

-----------------------------------------------------------------------------------------
-- The invariant
-----------------------------------------------------------------------------------------

/-- A receiver registers only while its service is neither marked as deleted nor freed, no
removal stands between its test of the counter and its mark, and the counter does not wrap
around.
-/
def RegistersInTime : Guard (State τ) (Event τ) :=
  fun _ st e =>
    match e with
    | .run t _ =>
        ∀ s ∈ (st.thread t).frame.registers,
          (st.kernel.service s).lazyDeleted = false
          ∧ st.kernel.freed s = false
          ∧ (∀ u, (st.thread u).frame.marks ≠ some s)
          ∧ (st.kernel.service s).threadWaitingMessageCount + 1 < 2 ^ 32
    | _ => True

/-- The counter of a service counts the threads registered on it. -/
def State.CountsWaiters (st : State τ) (s : Ref) : Prop :=
  (st.kernel.service s).threadWaitingMessageCount < 2 ^ 32
  ∧ Counted st.thread (fun th => th.frame.registered = some s)
      (st.kernel.service s).threadWaitingMessageCount

structure WaitersBlock (st : State τ) : Prop where
  counted : ∀ {s}, s < st.kernel.services → st.kernel.freed s = false → st.CountsWaiters s
  registered
    : ∀ {t s},
        (st.thread t).frame.registered = some s
        → (st.kernel.service s).lazyDeleted = false ∧ st.kernel.freed s = false
  marks
    : ∀ {t u s}, (st.thread u).frame.marks = some s → (st.thread t).frame.registered ≠ some s
  marked
    : ∀ {t s},
        (st.thread t).frame.marked = some s
        → (st.kernel.service s).lazyDeleted = true ∨ st.kernel.freed s = true

omit [DecidableEq τ] in
theorem waitersBlock_start : WaitersBlock (State.start : State τ) where
  counted := nofun
  registered := nofun
  marks := nofun
  marked := nofun

section

variable {st : State τ} {t : τ} {s : Ref}

omit [DecidableEq τ] in
theorem State.CountsWaiters.of_zero (zero : (st.kernel.service s).threadWaitingMessageCount = 0)
    (nobody : ∀ u, (st.thread u).frame.registered ≠ some s)
    : st.CountsWaiters s := by
  rw [State.CountsWaiters, zero]
  exact ⟨by decide, .zero nobody⟩

/-- A step of a call keeps the count of the receivers, by cases on what it does to it. -/
theorem State.CountsWaiters.run (counts : st.CountsWaiters s) (born : s < st.kernel.services)
    (exec : st.kernel.exec external (st.op t) = some (k, frame))
    (wraps
      : (st.thread t).frame.registers = some s
        → (st.kernel.service s).threadWaitingMessageCount + 1 < 2 ^ 32)
    : ({ st with kernel := k }.setThread t ⟨(st.thread t).calls, frame⟩).CountsWaiters s := by
  obtain ⟨small, counted⟩ := counts
  have service := Kernel.exec_service exec born
  rw [State.op, op_writes] at service
  -- The counter after a store, in terms of the counter before.
  have count {r w} (writes : (st.thread t).frame.writes = some (r, w))
      : (k.service s).threadWaitingMessageCount
        = if s = r then w.onCount (st.kernel.service s).threadWaitingMessageCount
          else (st.kernel.service s).threadWaitingMessageCount := by
    rw [service, writes]
    dsimp only
    split <;> simp
  show (k.service s).threadWaitingMessageCount < 2 ^ 32
    ∧ Counted (Function.update st.thread t ⟨(st.thread t).calls, frame⟩) _
        (k.service s).threadWaitingMessageCount
  cases counterStep_of_exec exec with
  | quiet same kept =>
      have unchanged
          : (k.service s).threadWaitingMessageCount
            = (st.kernel.service s).threadWaitingMessageCount := by
        cases writes : (st.thread t).frame.writes with
        | none => rw [service, writes]
        | some stored =>
            obtain ⟨r, w⟩ := stored
            rw [count writes, kept r w _ writes, ite_self]
      rw [unchanged]
      exact ⟨small, counted.keep (by rw [same])⟩
  | @join r registers out now writes =>
      rw [count writes]
      split
      · next same =>
          subst same
          have more := wraps registers
          have one_more
              : Write.incCount.onCount (st.kernel.service s).threadWaitingMessageCount
                = (st.kernel.service s).threadWaitingMessageCount + 1 := by
            simp only [Write.onCount, atomicInc]
            split <;> omega
          rw [one_more]
          exact ⟨more, counted.join (by simp [out]) now⟩
      · next other =>
          exact ⟨small, counted.keep (by simp [out, now, Ne.symm other])⟩
  | @leave r here gone writes =>
      rw [count writes]
      split
      · next same =>
          subst same
          have pos := counted.pos here
          obtain ⟨rest, fewer⟩ := Nat.exists_eq_succ_of_ne_zero pos.ne'
          have one_less
              : Write.decCount.onCount (st.kernel.service s).threadWaitingMessageCount = rest := by
            simp only [Write.onCount, atomicDec]
            split <;> omega
          rw [fewer] at counted
          rw [one_less]
          exact ⟨by omega, counted.leave here (by simp [gone])⟩
      · next other =>
          exact ⟨small, counted.keep (by simp [here, gone, Ne.symm other])⟩

/-- A receiver registered after a step was registered before, or has just registered. -/
theorem registered_of_run (exec : st.kernel.exec external (st.op t) = some (k, frame)) {u : τ}
    (after
      : (({ st with kernel := k }.setThread t ⟨(st.thread t).calls, frame⟩).thread u).frame.registered
        = some s)
    : (st.thread u).frame.registered = some s
      ∨ (u = t
        ∧ (st.thread t).frame.registers = some s
        ∧ (st.thread t).frame.writes = some (s, .incCount)) := by
  rw [State.setThread_frame] at after
  split at after
  · next same =>
      subst same
      cases counterStep_of_exec exec with
      | quiet same kept => exact .inl (same ▸ after)
      | join registers out now writes =>
          obtain rfl := Option.some.inj (now.symm.trans after)
          exact .inr ⟨rfl, registers, writes⟩
      | leave here gone writes => simp [gone] at after
  · exact .inl after

end

variable {h : History (State τ) (Event τ)} {st st' : State τ} {e : Event τ} {t : τ}

/-- A step of a call keeps the invariant. -/
theorem WaitersBlock.run (x : WaitersBlock st)
    (born : ∀ t, ∀ s ∈ (st.thread t).frame.pointers, s < st.kernel.services)
    (ok : RegistersInTime h st (.run t external))
    (exec : st.kernel.exec external (st.op t) = some (k, frame))
    : WaitersBlock ({ st with kernel := k }.setThread t ⟨(st.thread t).calls, frame⟩) := by
  have writes_frame : (st.op t).writes = (st.thread t).frame.writes := op_writes _ _
  -- A service with receivers is neither marked nor freed by the step.
  have kept {s} (pointed : s < st.kernel.services)
      (alive : (st.kernel.service s).lazyDeleted = false ∧ st.kernel.freed s = false)
      (unmarked : (st.thread t).frame.writes ≠ some (s, .lazyDeleted))
      : (k.service s).lazyDeleted = false ∧ k.freed s = false := by
    refine ⟨?_, ?_⟩
    · rw [Kernel.exec_service exec pointed, writes_frame]
      cases writes : (st.thread t).frame.writes with
      | none => exact alive.1
      | some stored =>
          obtain ⟨r, w⟩ := stored
          dsimp only
          split
          · next same =>
              subst same
              cases w
              case lazyDeleted => exact absurd writes unmarked
              all_goals exact alive.1
          · exact alive.1
    · rw [Kernel.exec_freed exec fun frees => ?_]
      · exact alive.2
      · have marked := marked_of_emptied (emptied_of_frees frees)
        rcases x.marked marked with doomed | freed
        · simp [alive.1] at doomed
        · simp [alive.2] at freed
  have doomed {s} (pointed : s < st.kernel.services)
      (gone : (st.kernel.service s).lazyDeleted = true ∨ st.kernel.freed s = true)
      : (k.service s).lazyDeleted = true ∨ k.freed s = true := by
    refine gone.imp (fun doomed => ?_) fun freed => ?_
    · rw [Kernel.exec_service exec pointed]
      split
      · split
        · exact Write.apply_lazyDeleted _ doomed
        · exact doomed
      · exact doomed
    · cases still : k.freed s with
      | true => rfl
      | false => simp [Kernel.exec_unfreed exec still] at freed
  refine { counted := ?_, registered := ?_, marks := ?_, marked := ?_ }
  · intro s pointed unfreed
    by_cases old : s < st.kernel.services
    · refine (x.counted old (Kernel.exec_unfreed exec unfreed)).run old exec fun registers => ?_
      exact (ok s registers).2.2.2
    · -- The service is the one that the step has created.
      obtain ⟨ts, allocates⟩ : ∃ ts, (st.op t).allocates = some ts := by
        refine Option.ne_none_iff_exists'.mp fun nothing => old ?_
        rw [← Kernel.exec_allocates_none exec nothing]
        exact pointed
      obtain ⟨services, service, -⟩ := Kernel.exec_allocates exec allocates
      obtain rfl : s = st.kernel.services := by
        have bound : s < st.kernel.services + 1 := services ▸ pointed
        exact Nat.le_antisymm (Nat.le_of_lt_succ bound) (Nat.not_lt.mp old)
      rw [State.op, op_allocates] at allocates
      obtain ⟨key, tag, permission, euid, rfl⟩ := Frame.eq_created_of_allocates allocates
      have zero : (k.service st.kernel.services).threadWaitingMessageCount = 0 := by
        rw [service, Function.update_self]
        rfl
      refine .of_zero zero fun u after => ?_
      rcases registered_of_run exec after with before | ⟨-, registers, -⟩
      · exact Nat.lt_irrefl _ (born u _ (registered_mem_pointers before))
      · exact Nat.lt_irrefl _ (born t _ (registers_mem_pointers registers))
  · intro u s after
    rcases registered_of_run exec after with before | ⟨-, registers, writes⟩
    · refine kept (born u s (registered_mem_pointers before)) (x.registered before) fun writes => ?_
      exact x.marks (marks_of_writes writes) before
    · obtain ⟨alive, unfreed, -⟩ := ok s registers
      exact kept (born t s (registers_mem_pointers registers)) ⟨alive, unfreed⟩ (by simp [writes])
  · intro v u s after registered
    rw [State.setThread_frame] at after
    split at after
    · next same =>
        obtain ⟨pointed, zero, out, silent⟩ := marks_of_exec exec after
        have here : (st.thread v).frame.registered = some s := by
          rcases registered_of_run exec registered with before | ⟨-, -, writes⟩
          · exact before
          · simp [silent] at writes
        have counts := (x.counted (born t s pointed) (x.registered here).2).2
        rw [zero] at counts
        exact counts.nobody v here
    · rcases registered_of_run exec registered with before | ⟨-, registers, -⟩
      · exact x.marks after before
      · exact (ok s registers).2.2.1 u after
  · intro u s after
    rw [State.setThread_frame] at after
    split at after
    · rcases marked_of_exec exec after with before | writes
      · exact doomed (born t s (marked_mem_pointers before)) (x.marked before)
      · refine .inl ?_
        have pointed : s < st.kernel.services := by
          have touches : (st.op t).touches = some s :=
            Op.touches_of_writes (writes_frame.trans writes)
          exact born t s (touches_mem_pointers touches)
        show (k.service s).lazyDeleted = true
        rw [Kernel.exec_service exec pointed, writes_frame, writes]
        simp [Write.apply]
    · exact doomed (born u s (marked_mem_pointers after)) (x.marked after)

omit [DecidableEq τ] in
/-- An event outside the calls that changes no mark and no counter in use keeps the
invariant.
-/
theorem WaitersBlock.of_same (x : WaitersBlock st) (thread : st'.thread = st.thread)
    (freed : st'.kernel.freed = st.kernel.freed)
    (services : st'.kernel.services = st.kernel.services)
    (same
      : ∀ s,
          st.kernel.freed s = false
          → (st'.kernel.service s).lazyDeleted = (st.kernel.service s).lazyDeleted
            ∧ (st'.kernel.service s).threadWaitingMessageCount
              = (st.kernel.service s).threadWaitingMessageCount)
    : WaitersBlock st' where
  counted {s} born unfreed := by
    rw [freed] at unfreed
    rw [State.CountsWaiters, (same s unfreed).2, thread]
    exact x.counted (services ▸ born) unfreed
  registered {t s} registered := by
    rw [thread] at registered
    obtain ⟨alive, unfreed⟩ := x.registered registered
    rw [(same s unfreed).1, freed]
    exact ⟨alive, unfreed⟩
  marks {t u s} marks := by
    rw [thread] at marks ⊢
    exact x.marks marks
  marked {t s} marked := by
    rw [thread] at marked
    rw [freed]
    cases unfreed : st.kernel.freed s with
    | true => exact .inr rfl
    | false =>
        rw [(same s unfreed).1]
        exact .inl ((x.marked marked).resolve_right (by simp [unfreed]))

/-- Every event keeps the invariant, by cases on the event. -/
theorem WaitersBlock.step (x : WaitersBlock st)
    (born : ∀ t, ∀ s ∈ (st.thread t).frame.pointers, s < st.kernel.services)
    (ok : RegistersInTime h st e) (step : st.step e = some st')
    : WaitersBlock st' := by
  cases State.steps_of_step step with
  | @call t euid c last user =>
      have fresh
          : (c.enter euid).registered = none ∧ (c.enter euid).marks = none
            ∧ (c.enter euid).marked = none := by
        cases c <;> exact ⟨rfl, rfl, rfl⟩
      have before {u : τ} {s : Ref} (held : Frame → Option Ref)
          (nothing : held (c.enter euid) = none)
          (after
            : held ((st.setThread t ⟨(st.thread t).calls + 1, c.enter euid⟩).thread u).frame
              = some s)
          : held (st.thread u).frame = some s := by
        rw [State.setThread_frame] at after
        split at after
        · simp [nothing] at after
        · exact after
      refine
        { counted := fun {s} pointed unfreed => ?_
          registered := fun after => x.registered (before Frame.registered fresh.1 after)
          marks := fun after registered =>
            x.marks (before Frame.marks fresh.2.1 after)
              (before Frame.registered fresh.1 registered)
          marked := fun after => x.marked (before Frame.marked fresh.2.2 after) }
      obtain ⟨small, counted⟩ := x.counted pointed unfreed
      have out : (st.thread t).frame.registered = none := by rw [user]; rfl
      exact ⟨small, counted.keep (by rw [fresh.1, out])⟩
  | run exec => exact x.run born ok exec
  | softirq ready exec =>
      obtain ⟨-, freed, services⟩ := homes_of_callback exec
      refine x.of_same rfl freed services fun s _ => ⟨?_, ?_⟩
      · exact Kernel.exec_callback_field (fun _ _ => rfl) (fun _ _ => rfl) (fun _ => rfl) exec s
      · exact Kernel.exec_callback_field (fun _ _ => rfl) (fun _ _ => rfl) (fun _ => rfl) exec s
  | signal busy => exact x.of_same rfl rfl rfl fun _ _ => ⟨rfl, rfl⟩
  | @reuse r ts freed =>
      refine x.of_same rfl rfl rfl fun s unfreed => ?_
      have other : s ≠ r := by
        rintro rfl
        simp [unfreed] at freed
      simp only [Function.update_of_ne other, and_self]

theorem waitersBlock_run (run : (machine τ).Run RegistersInTime h st) : WaitersBlock st :=
  run.invariant (P := fun _ st => WaitersBlock st) waitersBlock_start
    fun before x ok step => x.step (pointers_born before) ok step

/-- As long as receivers register in time, no receiver is registered on a service that is
marked as deleted or freed.
-/
theorem waiters_block_removal (run : (machine τ).Run RegistersInTime h st) {s : Ref}
    (registered : (st.thread t).frame.registered = some s)
    : (st.kernel.service s).lazyDeleted = false ∧ st.kernel.freed s = false :=
  (waitersBlock_run run).registered registered

instance [Fintype τ] (h : History (State τ) (Event τ)) (st : State τ) (e : Event τ)
    : Decidable (RegistersInTime h st e) :=
  match e with
  | .run t _ =>
      inferInstanceAs (Decidable (∀ s ∈ (st.thread t).frame.registers,
        (st.kernel.service s).lazyDeleted = false ∧ st.kernel.freed s = false
          ∧ (∀ u, (st.thread u).frame.marks ≠ some s)
          ∧ (st.kernel.service s).threadWaitingMessageCount + 1 < 2 ^ 32))
  | .call _ _ _ | .softirq _ | .signal _ | .reuse _ _ => isTrue trivial

/-- A removal during a receive is refused, and the receiver keeps its service. -/
theorem waiters_block_removal_of_sleeper
    : ∃ h st,
        (machine (Fin 2)).Run RegistersInTime h st
        ∧ (st.thread 0).frame = .user (some (-EBUSY))
        ∧ (st.thread 1).frame.registered = some 0
        ∧ (st.kernel.service 0).lazyDeleted = false
        ∧ st.kernel.freed 0 = false := by
  obtain ⟨h, st, run, facts⟩ := Machine.Run.exists_of_replay
    (M := machine (Fin 2)) (G := RegistersInTime)
    (creating 0 1 ++ fallingAsleep 1 1 0 ++ removing 0 1 11)
    (fun _ st => (st.thread 0).frame.result == some (-EBUSY)
      && (st.thread 1).frame.registered == some 0)
    (by decide +kernel)
  simp only [Bool.and_eq_true, beq_iff_eq] at facts
  obtain ⟨refused, registered⟩ := facts
  exact ⟨h, st, run, Frame.eq_user_of_result refused, registered,
    waiters_block_removal run registered⟩

/-- Without the condition a receiver waits on a service that is gone: it has tested
`lazy_deleted`, then the service is removed and freed, then it registers.
-/
theorem waits_on_removed
    : ¬ ∀ (h : History (State (Fin 2)) (Event (Fin 2))) (st : State (Fin 2)) (t : Fin 2)
          (s : Ref),
        (machine (Fin 2)).Run anyStep h st
        → (st.thread t).frame.registered = some s
        → (st.kernel.service s).lazyDeleted = false ∧ st.kernel.freed s = false := by
  intro always
  obtain ⟨h, st, run, facts⟩ := Machine.Run.exists_of_replay
    (M := machine (Fin 2)) (G := anyStep)
    (creating 0 1 ++ .call 1 0 (.tagReceive 1 0 true 16) :: runs 1 4 ++ removing 0 1 22
      ++ runs 1 1)
    (fun _ st => (st.thread 1).frame.registered == some 0 && st.kernel.freed 0)
    (by decide +kernel)
  simp only [Bool.and_eq_true, beq_iff_eq] at facts
  have alive := always h st 1 0 run facts.1
  simp [alive.2] at facts

end TagExchange
