import TagExchange.Model.Debts
import TagExchange.Properties.Marks
import TagExchange.Properties.Waiters

/-! What a registered receiver may rely on: its service stays in its slot, its read-side section
stays open until the receiver closes it, and no callback registered in the meantime starts.
-/

namespace TagExchange

open Concurrency Protocol

variable {τ : Type} [DecidableEq τ] {h : History (State τ) (Event τ)} {st st' : State τ}
  {e : Event τ} {t : τ} {s : Ref} {i : Int}

-----------------------------------------------------------------------------------------
-- The slot of a receiver's service
-----------------------------------------------------------------------------------------

/-- A service marked as deleted stays marked, unless its memory is reused. -/
theorem lazyDeleted_of_step (step : st.step e = some st') (born : s < st.kernel.services)
    (kept : e.reuses ≠ some s) (doomed : (st.kernel.service s).lazyDeleted = true)
    : (st'.kernel.service s).lazyDeleted = true := by
  rw [service_of_step step born kept]
  split
  · split
    · exact Write.apply_lazyDeleted _ doomed
    · exact doomed
  · exact doomed

/-- What a receiver has loaded is in its slot, or marked as deleted, by cases on the moves. -/
theorem slotted_run (run : (machine τ).Run Unheld h st)
    : ∀ {t f i s},
        (st.thread t).frame = .receive f
        → (st.thread t).frame.loaded = some (i, s)
        → st.kernel.tsm.allTagServices i = some s ∨ (st.kernel.service s).lazyDeleted = true := by
  refine run.invariant
    (P := fun _ st => ∀ {t f i s},
      (st.thread t).frame = .receive f
      → (st.thread t).frame.loaded = some (i, s)
      → st.kernel.tsm.allTagServices i = some s ∨ (st.kernel.service s).lazyDeleted = true)
    (fun here => by cases here) ?_
  intro h st e st' before slotted ok step t f' i s after loaded
  have step : st.step e = some st' := step
  have x := Unheld.safe before
  have carry (held : s ∈ (st.thread t).frame.pointers)
      (old : st.kernel.tsm.allTagServices i = some s ∨ (st.kernel.service s).lazyDeleted = true)
      : st'.kernel.tsm.allTagServices i = some s ∨ (st'.kernel.service s).lazyDeleted = true := by
    have doomed := lazyDeleted_of_step step (pointers_born before t s held)
      (ReuseUnheld.kept_of_pointer ok held)
    rcases old with found | gone
    · exact (slot_of_step x step found).imp_right doomed
    · exact .inr (doomed gone)
  cases receiveTurn_of_step step after with
  | rest other thread =>
      rw [thread] at after loaded
      exact carry (loaded_mem_pointers loaded) (slotted after loaded)
  | enter calls entered =>
      rename_i euid c
      cases c <;> cases entered
      rw [after] at loaded
      cases loaded
  | @move external f pc frame event here calls point move target =>
      subst event
      obtain ⟨tag, level, buffer, size, euid, ts, realSize, interrupted, copied, pc⟩ := f
      obtain rfl := point
      rw [after] at loaded
      have stay
          (same
            : (Frame.receive ⟨tag, level, buffer, size, euid, ts, realSize, interrupted, copied,
                pc⟩).loaded = some (i, s))
          : st'.kernel.tsm.allTagServices i = some s
            ∨ (st'.kernel.service s).lazyDeleted = true :=
        carry (loaded_mem_pointers (here ▸ same)) (slotted here (here ▸ same))
      cases move with
      | load found =>
          obtain rfl := Frame.receive.inj target
          cases loaded
          refine (slot_of_step x step found).imp_right fun doomed => ?_
          exact lazyDeleted_of_step step ((homes_run before).slot found).1
            (fun same => by cases same) doomed
      | leave => cases target
      | _ =>
          obtain rfl := Frame.receive.inj target
          first
          | exact stay loaded
          | cases loaded

/-- As long as receivers register in time, the service of a registered receiver is the one in
its slot.
-/
theorem slot_of_registered (unheld : (machine τ).Run Unheld h st)
    (timely : (machine τ).Run RegistersInTime h st) {f : ReceiveFrame}
    (here : (st.thread t).frame = .receive f)
    (registered : (st.thread t).frame.registered = some f.ts)
    : st.kernel.tsm.allTagServices f.tag = some f.ts := by
  have alive := ((waitersBlock_run timely).registered registered).1
  refine (slotted_run unheld here ?_).resolve_right (by simp [alive])
  obtain ⟨tag, level, buffer, size, euid, ts, realSize, interrupted, copied, pc⟩ := f
  rw [here] at registered ⊢
  cases pc <;> first | rfl | cases registered

-----------------------------------------------------------------------------------------
-- Read-side sections
-----------------------------------------------------------------------------------------

/-- A receiver inside its read-side section. -/
def Frame.inSection : Frame → Bool
  | receive f =>
      match f.pc with
      | .signal | .ready | .size | .copy | .rcuUnlock _ => true
      | _ => false
  | _ => false

/-- The step of another call leaves a section open. -/
theorem mem_readers_of_exec {k k' : Kernel τ} {external : Nat} {c : CallId τ}
    {before after : Frame} (exec : k.exec external (before.op c) = some (k', after))
    (other : t ≠ c.1) (inside : t ∈ k.rcu.readers)
    : t ∈ k'.rcu.readers := by
  have own := fun u => op_thread c before (u := u)
  rw [(Kernel.exec_performs exec).rcu]
  generalize before.op c = op at own
  cases op
  case rcuReadLock u next => exact List.mem_cons_of_mem _ inside
  case rcuReadUnlock u next =>
    obtain rfl := own u rfl
    exact (List.mem_erase_of_ne other).mpr inside
  all_goals exact inside

/-- Another event than the thread's own step leaves its section open. -/
theorem mem_readers_of_step (step : st.step e = some st') (other : ∀ external, e ≠ .run t external)
    (inside : t ∈ st.kernel.rcu.readers)
    : t ∈ st'.kernel.rcu.readers := by
  cases State.steps_of_step step with
  | @run u external k frame exec =>
      refine mem_readers_of_exec exec (fun same => ?_) inside
      exact other external (by rw [show t = u from same])
  | @softirq n b k next ready exec =>
      show t ∈ (k.rcu.advance n next).readers
      rw [Rcu.readers_advance, rcu_of_softirq exec]
      exact inside
  | _ => exact inside

/-- A receiver inside its section is one of the readers, by cases on its moves. -/
theorem readers_run {G : Guard (State τ) (Event τ)} (run : (machine τ).Run G h st)
    : ∀ {t}, (st.thread t).frame.inSection = true → t ∈ st.kernel.rcu.readers := by
  refine run.invariant
    (P := fun _ st => ∀ {t},
      (st.thread t).frame.inSection = true → t ∈ st.kernel.rcu.readers)
    (fun inside => by cases inside) ?_
  intro h st e st' before readers _ step t inside
  have step : st.step e = some st' := step
  cases turn_of_step step t with
  | rest other thread =>
      rw [thread] at inside
      exact mem_readers_of_step step other (readers inside)
  | @enter euid c event idle thread =>
      rw [thread] at inside
      cases c <;> cases inside
  | @go external frame event exec thread =>
      rw [thread] at inside
      have rcu := (Kernel.exec_performs exec).rcu
      cases here : (st.thread t).frame with
      | receive f =>
          have old := readers (t := t)
          rw [State.op, here] at exec rcu
          rw [here] at old
          have move := receiveMove_of_exec exec
          obtain ⟨tag, level, buffer, size, euid, ts, realSize, interrupted, copied, pc⟩ := f
          change ReceiveMove st.kernel t _ pc frame at move
          rw [rcu]
          cases move with
          | rcuLock => exact List.mem_cons_self ..
          | signal => exact old rfl
          | noSignal => exact old rfl
          | ready => exact old rfl
          | notReady => exact old rfl
          | size => exact old rfl
          | copy => exact old rfl
          | _ => cases inside
      | _ =>
          rw [State.op, here] at exec
          have same := Kernel.exec_sameCall exec
          cases frame <;> first | cases inside | cases same

/-- A callback that waits for a section goes on waiting as long as the section is open, by cases
on the event.
-/
theorem waits_of_step (step : st.step e = some st')
    (stays : ∀ external, e = .run t external → st'.kernel.rcu = st.kernel.rcu)
    {p : Pending τ (Callback τ)} (member : p ∈ st.kernel.rcu.pending) (waits : t ∈ p.waits)
    : ∃ q ∈ st'.kernel.rcu.pending, q.callback = p.callback ∧ t ∈ q.waits := by
  cases State.steps_of_step step with
  | @run u external k frame exec =>
      rcases eq_or_ne t u with rfl | other
      · have same : k.rcu = st.kernel.rcu := stays external rfl
        exact ⟨p, by rw [← same] at member; exact member, rfl, waits⟩
      · have own := fun v => op_thread (u, (st.thread u).calls) (st.thread u).frame (u := v)
        have rcu := (Kernel.exec_performs exec).rcu
        show ∃ q ∈ k.rcu.pending, _
        rw [rcu, State.op]
        generalize (st.thread u).frame.op (u, (st.thread u).calls) = op at own
        cases op
        case rcuReadUnlock v next =>
          obtain rfl := own v rfl
          exact Rcu.waits_readUnlock _ member waits other
        case callRcu b next => exact ⟨p, List.mem_append_left _ member, rfl, waits⟩
        all_goals exact ⟨p, member, rfl, waits⟩
  | @softirq n b k next ready exec =>
      refine ⟨p, ?_, rfl, waits⟩
      show p ∈ (k.rcu.advance n next).pending
      rw [rcu_of_softirq exec]
      exact Rcu.waits_advance _ ready member waits
  | _ => exact ⟨p, member, rfl, waits⟩

end TagExchange
