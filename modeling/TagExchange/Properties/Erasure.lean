import TagExchange.Properties.Confinement
import TagExchange.Properties.Refusals

/-! A refused call has changed nothing: the same run without it leads to the same kernel, and
leaves every other thread where it is.
-/

namespace TagExchange

open Concurrency Protocol

variable {τ : Type}

-----------------------------------------------------------------------------------------
-- What a call has borrowed
-----------------------------------------------------------------------------------------

/-- The references to the module that a call has taken. -/
def Frame.refs : Frame → Int
  | user _ => 0
  | get f => match f.pc with
      | .entry => 0
      | _ => 1
  | send f => match f.pc with
      | .entry => 0
      | _ => 1
  | receive f => match f.pc with
      | .entry => 0
      | _ => 1
  | ctl f => match f.pc with
      | .entry => 0
      | _ => 1

/-- The pages that a call has taken. -/
def Frame.pages : Frame → Int
  | send f => match f.pc with
      | .entry | .getPage | .ret _ _ | .oops false => 0
      | _ => 1
  | _ => 0

def Frame.debt (frame : Frame) (signalled : Bool) : Debt :=
  ⟨frame.holds, frame.refs, frame.pages, signalled⟩

/-- The effect of a step of a harmless call on what it has borrowed, by cases on the move. -/
theorem debt_of_exec [DecidableEq τ] {k k' : Kernel τ} {external : Nat} {c : CallId τ}
    {before after : Frame} (signalled : Bool) (harmless : before.harmless = true)
    (tagged
      : ∀ f x, before = .ctl f → f.pc = .unlockIndex x → (k.service f.ts).tag = f.index)
    (exec : k.exec external (before.op c) = some (k', after))
    (spared : after.harmless = true ∨ after.idle = true)
    : (before.op c).onDebt (before.debt signalled) external
      = after.debt (if after.idle then false else signalled) := by
  cases before with
  | user last => cases exec
  | get f =>
      have move := getMove_of_exec exec
      obtain ⟨key, command, permission, euid, tag, ts, pc⟩ := f
      change GetMove k _ pc after at move
      obtain ⟨asked, harmless⟩ := Bool.and_eq_true_iff.mp harmless
      have opens := (of_decide_eq_true asked).1
      cases move with
      | lockCreate _ create => exact absurd (opens.symm.trans create) (by decide)
      | _ => first | rfl | cases harmless
  | send f =>
      change k.exec external (tagSend c f) = _ at exec
      have move := sendMove_of_exec exec
      obtain ⟨tag, level, buffer, size, euid, realSize, stored, ts, pc⟩ := f
      change SendMove k _ pc after at move
      cases move with
      | refuse => rcases spared with spared | spared <;> cases spared
      | getPage =>
          obtain ⟨rfl, -⟩ | ⟨-, same⟩ := page_of_exec rfl exec
          · rfl
          · cases congrArg SendFrame.pc (Frame.send.inj same)
      | noPage =>
          obtain ⟨-, same⟩ | ⟨failed, -⟩ := page_of_exec rfl exec
          · cases congrArg SendFrame.pc (Frame.send.inj same)
          · exact if_neg failed
      | @leave r put => cases put <;> first | rfl | cases harmless
      | _ => first | rfl | cases harmless
  | receive f =>
      have move := receiveMove_of_exec exec
      obtain ⟨tag, level, buffer, size, euid, ts, realSize, interrupted, copied, pc⟩ := f
      change ReceiveMove k c.1 _ pc after at move
      cases move with
      | _ => first | rfl | cases harmless
  | ctl f =>
      have move := ctlMove_of_exec exec
      obtain ⟨tag, command, euid, ts, index, awakened, pc⟩ := f
      change CtlMove k _ pc after at move
      cases move with
      | unknown => rcases spared with spared | spared <;> cases spared
      | @unlockIndex x =>
          have same : (k.service ts).tag = index := tagged _ x rfl rfl
          simp only [Op.onDebt, Frame.op, tagCtl, Frame.debt, Frame.holds, CtlFrame.at_, same]
          rfl
      | _ => first | rfl | cases harmless

/-- A call unlocks what it holds. -/
theorem holds_of_unlocks (c : CallId τ) (frame : Frame) {i : Int}
    (unlocks : (frame.op c).unlocks = some i)
    : frame.holds = some i := by
  cases frame with
  | user last => cases unlocks
  | get f =>
      obtain ⟨key, command, permission, euid, tag, ts, pc⟩ := f
      cases pc
      case find pc => cases pc <;> cases unlocks
      case device pc => cases pc using CreateDevicePc.points <;> cases unlocks
      all_goals cases unlocks
      all_goals rfl
  | send f =>
      obtain ⟨tag, level, buffer, size, euid, realSize, stored, ts, pc⟩ := f
      cases pc <;> cases unlocks
      rfl
  | receive f =>
      obtain ⟨tag, level, buffer, size, euid, ts, realSize, interrupted, copied, pc⟩ := f
      cases pc
      case entered pc => cases pc <;> cases unlocks
      case left x pc => cases pc <;> cases unlocks
      all_goals cases unlocks
  | ctl f =>
      obtain ⟨tag, command, euid, ts, index, awakened, pc⟩ := f
      cases pc
      case find pc => cases pc <;> cases unlocks
      case destroy pc => cases pc <;> cases unlocks
      all_goals cases unlocks
      all_goals rfl

theorem unheld_of_locks {c : CallId τ} {frame : Frame} (harmless : frame.harmless = true) {i : Int}
    (locks : (frame.op c).locks = some i)
    : frame.holds = none := by
  cases frame with
  | user last => cases locks
  | get f =>
      obtain ⟨key, command, permission, euid, tag, ts, pc⟩ := f
      have harmless := (Bool.and_eq_true_iff.mp harmless).2
      cases pc <;> first | cases locks | cases harmless
      rfl
  | send f =>
      obtain ⟨tag, level, buffer, size, euid, realSize, stored, ts, pc⟩ := f
      cases pc <;> cases locks
      rfl
  | receive f =>
      obtain ⟨tag, level, buffer, size, euid, ts, realSize, interrupted, copied, pc⟩ := f
      cases pc <;> first | cases locks | cases harmless
  | ctl f =>
      obtain ⟨tag, command, euid, ts, index, awakened, pc⟩ := f
      cases pc <;> first | cases locks | cases harmless
      rfl

-----------------------------------------------------------------------------------------
-- The run without a call
-----------------------------------------------------------------------------------------

/-- The event is one of the thread. -/
def Event.by_ [DecidableEq τ] (e : Event τ) (t : τ) : Bool :=
  match e with
  | call u _ _ | run u _ | signal u => decide (u = t)
  | softirq _ | reuse _ _ => false

variable [DecidableEq τ] {h : History (State τ) (Event τ)} {st st' : State τ} {e : Event τ} {t : τ}
  {s : Ref}

/-- What the call of a thread has borrowed. -/
def State.debt (st : State τ) (t : τ) : Debt :=
  (st.thread t).frame.debt (st.kernel.signalled t)

/-- The run `h₀` makes the same events without those of the call that the thread is in, or
was in last. It ends in the same state, except that this call has not been made and its
debts do not exist.
-/
structure Erases (h : History (State τ) (Event τ)) (st : State τ) (t : τ)
    (h₀ : History (State τ) (Event τ)) (st₀ : State τ)
    : Prop where
  run : (machine τ).Run Confined h₀ st₀
  events
    : ∃ newer older entry euid c,
        h = newer ++ (entry, .call t euid c) :: older
        ∧ entry.thread t = st₀.thread t
        ∧ h₀.map Prod.snd
          = (newer.filter fun moment => !moment.2.by_ t).map Prod.snd ++ older.map Prod.snd
  calls : (st.thread t).calls = (st₀.thread t).calls + 1
  idle : (st₀.thread t).frame.idle = true
  others : ∀ u, u ≠ t → st₀.thread u = st.thread u
  kernel : st.kernel = st₀.kernel.owing t (st.debt t)

omit [DecidableEq τ] in
/-- A thread is back in user mode only by leaving its call, by cases on the move. -/
theorem leaves_of_idle [DecidableEq τ] {k k' : Kernel τ} {external : Nat} {c : CallId τ}
    {before after : Frame} (exec : k.exec external (before.op c) = some (k', after))
    (idle : after.idle = true)
    : before.leaves = true := by
  cases before with
  | user last => cases exec
  | get f =>
      have move := getMove_of_exec exec
      obtain ⟨key, command, permission, euid, tag, ts, pc⟩ := f
      change GetMove k _ pc after at move
      cases move with
      | leave => rfl
      | _ => cases idle
  | send f =>
      have move := sendMove_of_exec exec
      obtain ⟨tag, level, buffer, size, euid, realSize, stored, ts, pc⟩ := f
      change SendMove k _ pc after at move
      cases move with
      | leave => rfl
      | _ => cases idle
  | receive f =>
      have move := receiveMove_of_exec exec
      obtain ⟨tag, level, buffer, size, euid, ts, realSize, interrupted, copied, pc⟩ := f
      change ReceiveMove k c.1 _ pc after at move
      cases move with
      | leave => rfl
      | _ => cases idle
  | ctl f =>
      have move := ctlMove_of_exec exec
      obtain ⟨tag, command, euid, ts, index, awakened, pc⟩ := f
      change CtlMove k _ pc after at move
      cases move with
      | leave => rfl
      | _ => cases idle

/-- No signal is pending in user mode. -/
theorem calm_run {G : Guard (State τ) (Event τ)} (run : (machine τ).Run G h st)
    : ∀ t, (st.thread t).frame.idle = true → st.kernel.signalled t = false := by
  refine run.invariant
    (P := fun _ st => ∀ t, (st.thread t).frame.idle = true → st.kernel.signalled t = false)
    (fun _ _ => rfl) ?_
  intro h st e st' before calm _ step t idle
  cases State.steps_of_step step with
  | @call u euid c last user =>
      rw [State.setThread_frame] at idle
      split at idle
      · cases c <;> cases idle
      · exact calm t idle
  | @run u external k frame exec =>
      rw [State.setThread_frame] at idle
      have signalled := (Kernel.exec_performs exec).signalled
      rw [State.op, op_onSignalled] at signalled
      show k.signalled t = false
      rw [signalled]
      split at idle
      · next same =>
          subst same
          rw [if_pos (leaves_of_idle exec idle), Function.update_self]
      · next other =>
          split
          · rw [Function.update_of_ne other]
            exact calm t idle
          · exact calm t idle
  | @softirq n b k next ready exec =>
      have signalled := (Kernel.exec_performs exec).signalled
      show k.signalled t = false
      rw [signalled]
      obtain ⟨job, s, stage, caller⟩ := b
      cases job <;> cases stage <;> exact calm t idle
  | @signal u busy =>
      rcases eq_or_ne t u with rfl | other
      · obtain ⟨last, user⟩ := Frame.eq_user_of_idle idle
        exact absurd user (busy last)
      · exact (Function.update_of_ne other ..).trans (calm t idle)
  | reuse freed => exact calm t idle

/-- A step that is not one of the call prolongs the shorter run too. -/
theorem Erases.cons {h₀ : History (State τ) (Event τ)} {st₀ st₁ : State τ}
    (erases : Erases h st t h₀ st₀) (ok : Confined h₀ st₀ e) (step : st₀.step e = some st₁)
    (other : e.by_ t = false) (thread : st'.thread t = st.thread t)
    (mine : st₁.thread t = st₀.thread t) (others : ∀ u, u ≠ t → st₁.thread u = st'.thread u)
    (kernel : st'.kernel = st₁.kernel.owing t (st.debt t))
    : Erases ((st, e) :: h) st' t ((st₀, e) :: h₀) st₁ := by
  have signalled : st'.kernel.signalled t = st.kernel.signalled t := by
    rw [kernel]
    exact Function.update_self ..
  obtain ⟨newer, older, entry, euid, c, rfl, same, events⟩ := erases.events
  exact {
    run := erases.run.next ok step
    events := by
      refine ⟨(st, e) :: newer, older, entry, euid, c, rfl, mine ▸ same, ?_⟩
      rw [List.filter_cons_of_pos (by simp [other]), List.map_cons, List.map_cons, events]
      rfl
    calls := by rw [thread, mine, erases.calls]
    idle := by rw [mine, erases.idle]
    others
    kernel := by rw [State.debt, thread, signalled]; exact kernel }

theorem Erases.confined {h₀ : History (State τ) (Event τ)} {st₀ : State τ}
    (erases : Erases h st t h₀ st₀) (ok : Confined h st e) (other : e.by_ t = false)
    : Confined h₀ st₀ e := by
  refine ⟨ok.1, ok.2.1, ?_⟩
  have fits := ok.2.2
  cases e with
  | run u external =>
      simp only [State.SendsFit, erases.others u (of_decide_eq_false other)]
      exact fits
  | _ => trivial

/-- The step of another thread, or of a callback, is made in the shorter run too. -/
theorem Erases.other {h₀ : History (State τ) (Event τ)} {st₀ : State τ}
    (erases : Erases h st t h₀ st₀) (run : (machine τ).Run Confined h st) (ok : Confined h st e)
    (step : st.step e = some st') (other : e.by_ t = false)
    : ∃ st₁, Erases ((st, e) :: h) st' t ((st₀, e) :: h₀) st₁ := by
  have laws i := (Unheld.safe (Confined.unheld run)).lockHandOff i
  have debt : (st.debt t).lock = (st.thread t).frame.holds := rfl
  have ok₀ := erases.confined ok other
  cases State.steps_of_step step with
  | @call u euid c last user =>
      have apart : u ≠ t := of_decide_eq_false other
      have same := erases.others u apart
      refine ⟨st₀.setThread u ⟨(st₀.thread u).calls + 1, c.enter euid⟩, erases.cons ok₀ ?_ other
        (Function.update_of_ne apart.symm ..) (Function.update_of_ne apart.symm ..) ?_ erases.kernel⟩
      · simp only [State.step, same, user]
      · intro v away
        rcases eq_or_ne v u with rfl | else_
        · simp [State.setThread, same]
        · simp [State.setThread, Function.update_of_ne else_, erases.others v away]
  | @run u external k frame exec =>
      have apart : u ≠ t := of_decide_eq_false other
      have same := erases.others u apart
      have op : st.op u = st₀.op u := by rw [State.op, State.op, same]
      rw [erases.kernel, op] at exec
      obtain ⟨k₁, inner, kernel⟩ := Kernel.exec_owing (t := t)
        (fun v thread => op_thread _ _ thread ▸ apart) (fun i unlocks holds => by
          have held : (st.thread u).frame.holds = some i := same ▸ holds_of_unlocks _ _ unlocks
          exact apart ((laws i).oneCall u t held (debt ▸ holds))) exec
      have inner : st₀.kernel.exec external (st₀.op u) = some (k₁, frame) := inner
      refine ⟨({ st₀ with kernel := k₁ }.setThread u ⟨(st₀.thread u).calls, frame⟩),
        erases.cons ok₀ ?_ other (Function.update_of_ne apart.symm ..)
          (Function.update_of_ne apart.symm ..) ?_ ?_⟩
      · simp only [State.step, inner]
      · intro v away
        rcases eq_or_ne v u with rfl | else_
        · simp [State.setThread, same]
        · simp [State.setThread, Function.update_of_ne else_, erases.others v away]
      · exact kernel
  | @softirq n b k next ready exec =>
      have ready₀ : st₀.kernel.rcu.ready? n = some b := by
        have here := ready
        rw [erases.kernel] at here
        exact here
      have registered := List.mem_of_getElem? (st.kernel.rcu.callbacks_of_ready? ready)
      rw [erases.kernel] at exec
      obtain ⟨k₁, inner, rfl⟩ := Kernel.exec_owing (t := t)
        (fun v thread => by
          obtain ⟨job, s, stage, caller⟩ := b
          cases job <;> cases stage <;> cases thread)
        (fun i unlocks holds => by
          have stage : b.stage = .unlock i := by
            obtain ⟨job, s, stage, caller⟩ := b
            cases job <;> cases stage <;> cases unlocks <;> rfl
          have pending : b ∈ st.pending := Rcu.mem_among.mpr ⟨registered, by rw [Callback.owes, stage]⟩
          obtain ⟨m, here⟩ := List.getElem?_of_mem pending
          have tag := ((Unheld.safe (Confined.unheld run)).callback b pending).unlocks stage
          exact (laws i).neverBoth ⟨⟨t, debt ▸ holds⟩, m, b, here, tag.symm⟩) exec
      refine ⟨{ st₀ with kernel := { k₁ with rcu := k₁.rcu.advance n next } },
        erases.cons ok₀ ?_ other rfl rfl erases.others rfl⟩
      simp only [State.step, ready₀, inner]
  | @signal u busy =>
      have apart : u ≠ t := of_decide_eq_false other
      have same := erases.others u apart
      refine ⟨{ st₀ with kernel :=
          { st₀.kernel with signalled := Function.update st₀.kernel.signalled u true } },
        erases.cons ok₀ ?_ other rfl rfl erases.others ?_⟩
      · simp only [State.step, same]
      · show ({ st.kernel with signalled := _ } : Kernel τ) = _
        rw [erases.kernel]
        simp only [Kernel.owing, Function.update_comm apart]
  | reuse freed => exact ok.1.elim

omit [DecidableEq τ] in
/-- A `tag_ctl` call reads the index of the mutex to release from its service: it is the one
that it holds.
-/
theorem tag_of_unlockIndex [DecidableEq τ] (x : Safe st.kernel.core st.view) {f : CtlFrame}
    (here : (st.thread t).frame = .ctl f) {after : AfterUnlock} (point : f.pc = .unlockIndex after)
    : (st.kernel.service f.ts).tag = f.index := by
  obtain ⟨tag, command, euid, ts, index, awakened, pc⟩ := f
  obtain rfl := point
  have holds := holds_eq_lock x t
  have owner : (st.view t).lock = some index := by rw [← holds, here]; rfl
  refine x.tag_of_view (s := ts) owner ?_
  have fact := x.fact t
  simp only [State.view, here, Frame.view, CtlFrame.view] at fact ⊢
  split at fact
  · next own =>
      rw [if_pos own]
      cases after <;> rfl
  · exact fact.elim

/-- What a call holds is free in the run without it. -/
theorem Erases.free {h₀ : History (State τ) (Event τ)} {st₀ : State τ}
    (erases : Erases h st t h₀ st₀) (run : (machine τ).Run Confined h st) {i : Int}
    (holds : (st.thread t).frame.holds = some i)
    : st₀.kernel.tsm.accessLock i = false := by
  have laws := (Unheld.safe (Confined.unheld run)).lockHandOff i
  have laws₀ := (Unheld.safe (Confined.unheld erases.run)).lockHandOff i
  by_contra locked
  rcases laws₀.held.mp (by simpa using locked) with ⟨u, held⟩ | ⟨n, b, here, tag⟩
  · rcases eq_or_ne u t with rfl | away
    · obtain ⟨last, user⟩ := Frame.eq_user_of_idle erases.idle
      rw [user] at held
      cases held
    · rw [erases.others u away] at held
      exact away (laws.oneCall u t held holds)
  · refine laws.neverBoth ⟨⟨t, holds⟩, n, b, ?_, ?_⟩
    · rw [State.pending, erases.kernel]
      exact here
    · rw [erases.kernel]
      exact tag

/-- The steps of the call itself are left out. -/
theorem Erases.own {h₀ : History (State τ) (Event τ)} {st₀ : State τ}
    (erases : Erases h st t h₀ st₀) (run : (machine τ).Run Confined h st)
    (step : st.step e = some st') (own : e.by_ t = true)
    (calls : (st'.thread t).calls = (st.thread t).calls)
    (harmless : (st.thread t).frame.idle = false → (st.thread t).frame.harmless = true)
    (spared : (st'.thread t).frame.harmless = true ∨ (st'.thread t).frame.idle = true)
    : Erases ((st, e) :: h) st' t h₀ st₀ := by
  have others u (away : u ≠ t) : st₀.thread u = st'.thread u := by
    rw [erases.others u away]
    cases turn_of_step step u with
    | rest _ thread => exact thread.symm
    | enter event => subst event; exact absurd (of_decide_eq_true own) away
    | go event => subst event; exact absurd (of_decide_eq_true own) away
  obtain ⟨newer, older, entry, euid, c, rfl, same, events⟩ := erases.events
  refine {
    run := erases.run
    events := ⟨(st, e) :: newer, older, entry, euid, c, rfl, same, ?_⟩
    calls := calls.trans erases.calls
    idle := erases.idle
    others
    kernel := ?_ }
  · rw [List.filter_cons_of_neg (by simp [own]), events]
  · cases State.steps_of_step step with
    | @call u euid c last user =>
        obtain rfl : u = t := of_decide_eq_true own
        simp [State.setThread] at calls
    | @run u external k frame exec =>
        obtain rfl : u = t := of_decide_eq_true own
        rw [State.setThread_frame, if_pos rfl] at spared
        have busy : (st.thread u).frame.idle = false := by
          cases idle : (st.thread u).frame.idle with
          | false => rfl
          | true =>
              obtain ⟨last, user⟩ := Frame.eq_user_of_idle idle
              rw [State.op, user] at exec
              cases exec
        have harmless := harmless busy
        have after : k = st₀.kernel.owing u ((st.op u).onDebt (st.debt u) external) := by
          rw [erases.kernel] at exec
          refine Kernel.exec_inert (inert_of_harmless harmless) (fun v thread => op_thread _ _ thread)
            (fun i locks => unheld_of_locks harmless locks) (fun i unlocks => ?_) exec
          have holds := holds_of_unlocks _ _ unlocks
          exact ⟨erases.free run holds, holds⟩
        have debt := debt_of_exec (st.kernel.signalled u) harmless
          (fun f x here point => tag_of_unlockIndex (Unheld.safe (Confined.unheld run)) here point)
          exec spared
        have signalled : k.signalled u = if frame.idle then false else st.kernel.signalled u := by
          rw [after]
          exact (Function.update_self ..).trans (congrArg Debt.signalled debt)
        show k = st₀.kernel.owing u
          ((Function.update st.thread u ⟨(st.thread u).calls, frame⟩ u).frame.debt (k.signalled u))
        rw [Function.update_self, signalled, ← debt]
        exact after
    | @signal u busy =>
        obtain rfl : u = t := of_decide_eq_true own
        show ({ st.kernel with signalled := Function.update st.kernel.signalled u true } : Kernel τ)
          = st₀.kernel.owing u
              ((st.thread u).frame.debt (Function.update st.kernel.signalled u true u))
        rw [Function.update_self, erases.kernel, Kernel.owing_signal]
        rfl
    | softirq => cases own
    | reuse => cases own

/-- Whatever the thread does in a harmless call, the run without the call goes on, by induction
on the run.
-/
theorem erases_run (run : (machine τ).Run Confined h st)
    (harmless : (st.thread t).frame.harmless = true)
    : ∃ h₀ st₀, Erases h st t h₀ st₀ := by
  induction run with
  | start => cases harmless
  | @next h st e st' before ok step ih =>
      have step : st.step e = some st' := step
      cases turn_of_step step t with
      | rest other thread =>
          have old : (st.thread t).frame.harmless = true := thread ▸ harmless
          obtain ⟨h₀, st₀, erases⟩ := ih old
          cases own : e.by_ t with
          | false =>
              obtain ⟨st₁, erases⟩ := erases.other before ok step own
              exact ⟨_, st₁, erases⟩
          | true => exact ⟨h₀, st₀, erases.own before step own (by rw [thread]) (fun _ => old) (.inl harmless)⟩
      | @enter euid c event idle thread =>
          subst event
          have calm := calm_run before t idle
          refine ⟨h, st, before, ⟨[], h, st, euid, c, rfl, rfl, rfl⟩, by rw [thread], idle, ?_, ?_⟩
          · intro u away
            cases turn_of_step step u with
            | rest _ thread => exact thread.symm
            | enter event => cases event; exact absurd rfl away
            | go event => cases event
          · have kernel : st'.kernel = st.kernel := by
              cases State.steps_of_step step
              rfl
            have debt : st'.debt t = .none := by
              rw [State.debt, thread, kernel, calm]
              cases c <;> rfl
            rw [debt, kernel, Kernel.owing_none _ _ calm]
      | go event exec thread =>
          subst event
          rw [thread] at harmless
          have old := harmless_of_exec (fun f same => onPath_run before same) exec harmless
          obtain ⟨h₀, st₀, erases⟩ := ih old
          exact ⟨h₀, st₀, erases.own before step (decide_eq_true rfl) (by rw [thread])
            (fun _ => old) (.inl (by rw [thread]; exact harmless))⟩

-----------------------------------------------------------------------------------------
-- Refused calls
-----------------------------------------------------------------------------------------

omit [DecidableEq τ] in
theorem aims_mem_pointers {frame : Frame} (aims : frame.aims = some s) : s ∈ frame.pointers := by
  cases frame with
  | user last => cases aims
  | get f =>
      obtain ⟨key, command, permission, user, tag, ts, pc⟩ := f
      cases pc <;> cases aims
      all_goals exact List.mem_singleton_self _
  | send f =>
      obtain ⟨tag, level, buffer, size, user, realSize, stored, ts, pc⟩ := f
      cases pc <;> cases aims
      all_goals exact List.mem_singleton_self _
  | receive f =>
      obtain ⟨tag, level, buffer, size, user, ts, realSize, interrupted, copied, pc⟩ := f
      cases pc <;> cases aims
      all_goals exact List.mem_singleton_self _
  | ctl f =>
      obtain ⟨tag, command, user, ts, index, awakened, pc⟩ := f
      cases pc <;> cases aims
      all_goals exact List.mem_singleton_self _

omit [DecidableEq τ] in
theorem Frame.Refused.spared {k : Kernel τ} {frame : Frame} {euid : Int}
    (refused : frame.Refused k s euid) (path : ∀ f, frame = .get f → f.OnPath)
    : frame.harmless = true ∨ frame.idle = true := by
  cases busy : frame.idle with
  | true => exact .inr rfl
  | false =>
      rcases refused with ⟨directed, actor⟩ | refused
      · exact .inl (harmless_of_directed path directed actor)
      · exact .inl (harmless_of_refused refused busy)

/-- A service that is not marked as deleted has never been. -/
theorem alive_of_step (step : st.step e = some st') (born : s < st.kernel.services)
    (kept : e.reuses ≠ some s) (alive : (st'.kernel.service s).lazyDeleted = false)
    : (st.kernel.service s).lazyDeleted = false := by
  by_contra deleted
  have deleted : (st.kernel.service s).lazyDeleted = true := by simpa using deleted
  rw [service_of_step step born kept] at alive
  split at alive
  · next r w writes =>
      split at alive
      · simp [w.apply_lazyDeleted deleted] at alive
      · simp [deleted] at alive
  · simp [deleted] at alive

/-- A registered service stays registered until it is marked as deleted. -/
theorem registered_of_step (run : (machine τ).Run Unheld h st) (step : st.step e = some st') {i : Int}
    (found : st.kernel.tsm.allTagServices i = some s)
    (alive : (st.kernel.service s).lazyDeleted = false)
    : st'.kernel.tsm.allTagServices i = some s :=
  (slot_of_step (Unheld.safe run) step found).resolve_right (by simp [alive])

theorem born_of_directed (run : (machine τ).Run Unreused h st)
    (directed : (st.thread t).frame.Directed st.kernel s)
    : s < st.kernel.services := by
  rcases directed with aims | ⟨i, -, -, found⟩
  · exact pointers_born run t s (aims_mem_pointers aims)
  · exact ((homes_run run).slot found).1

/-- A call that was directed at a service it may not use is refused, and the run without it
goes on, by induction on the run.
-/
theorem refused_run (run : (machine τ).Run Confined h st) {euid : Int}
    (aimed : Aimed h t (st.thread t).calls s euid)
    (outsider : (st.kernel.service s).denies euid = true)
    (alive : (st.kernel.service s).lazyDeleted = false)
    : (st.thread t).frame.Refused st.kernel s euid ∧ ∃ h₀ st₀, Erases h st t h₀ st₀ := by
  induction run with
  | start => exact absurd aimed not_once_nil
  | @next h st e st' before ok step ih =>
      have step : st.step e = some st' := step
      have path f (same : (st.thread t).frame = .get f) : f.OnPath := onPath_run before same
      have born : s < st.kernel.services := by
        cases aimed with
        | here now => exact born_of_directed (Confined.unreused before) now.2.1
        | later earlier =>
            exact (Since.sameOwner (Confined.unreused before)
              (fun before now => born_of_directed before now.2.1) earlier).1
      have same := sameOwner_of_step step born (NoReuse.kept ok.1)
      have outsider : (st.kernel.service s).denies euid = true := same.denies euid ▸ outsider
      have alive := alive_of_step step born (NoReuse.kept ok.1) alive
      have stays {i : Int} (found : st.kernel.tsm.allTagServices i = some s)
          : st'.kernel.tsm.allTagServices i = some s :=
        registered_of_step (Confined.unheld before) step found alive
      have calls : (st'.thread t).calls = (st.thread t).calls := by
        rcases calls_of_step step t with same | ⟨more, -⟩
        · exact same
        · rw [more] at aimed
          cases aimed with
          | here now => exact absurd now.1 (Nat.ne_of_lt (Nat.lt_succ_self _))
          | later earlier =>
              obtain ⟨m, st₁, e₁, found, now⟩ := Once.moment earlier
              have bound := calls_le_of_mem (t := t) before (List.mem_of_getElem? found)
              exact absurd (now.1 ▸ bound) (Nat.not_succ_le_self _)
      rw [calls] at aimed
      obtain ⟨refused, h₀, st₀, erases⟩
          : (st.thread t).frame.Refused st.kernel s euid ∧ ∃ h₀ st₀, Erases h st t h₀ st₀ := by
        cases aimed with
        | here now =>
            exact ⟨.inl now.2, erases_run before (harmless_of_directed path now.2.1 now.2.2)⟩
        | later earlier => exact ih earlier outsider alive
      have refused' : (st'.thread t).frame.Refused st'.kernel s euid := by
        cases turn_of_step step t with
        | rest other thread =>
            rw [thread]
            rcases refused with ⟨aims | ⟨i, heads, tag, found⟩, actor⟩ | refused
            · exact .inl ⟨.inl aims, actor⟩
            · exact .inl ⟨.inr ⟨i, heads, tag, stays found⟩, actor⟩
            · exact .inr refused
        | enter event idle thread => simp [thread] at calls
        | go event exec thread =>
            rw [thread]
            rcases refused with ⟨aims | ⟨i, heads, tag, found⟩, actor⟩ | refused
            · exact refused_of_aims path aims actor exec outsider alive
            · exact directed_of_heads heads tag found actor exec (stays found)
            · exact .inr (refused_of_exec refused exec)
      refine ⟨refused', ?_⟩
      cases own : e.by_ t with
      | false =>
          obtain ⟨st₁, erases⟩ := erases.other before ok step own
          exact ⟨_, st₁, erases⟩
      | true =>
          refine ⟨h₀, st₀, erases.own before step own calls (fun busy => ?_)
            (refused'.spared fun f same => onPath_run (before.next ok step) same)⟩
          exact (refused.spared path).resolve_right (by simp [busy])

-----------------------------------------------------------------------------------------
-- The law
-----------------------------------------------------------------------------------------

/-- The run would have been the same without the last call of a thread: with all other events
in their order, it leads to the same kernel and the same other threads.
-/
def SameWithout (layout : Layout τ) (h : History (State τ) (Event τ)) (st : State τ) (t : τ)
    : Prop :=
  ∃ newer older entry euid c h₀ st₀,
    h = newer ++ (entry, .call t euid c) :: older
    ∧ (entry.thread t).calls + 1 = (st.thread t).calls
    ∧ layout.machine.Run Confined h₀ st₀
    ∧ h₀.map Prod.snd
      = (newer.filter fun moment => !moment.2.by_ t).map Prod.snd ++ older.map Prod.snd
    ∧ st₀.kernel = st.kernel
    ∧ st₀.thread t = entry.thread t
    ∧ ∀ u, u ≠ t → st₀.thread u = st.thread u

theorem Erases.same {h₀ : History (State τ) (Event τ)} {st₀ : State τ} (layout : Layout τ)
    (erases : Erases h st t h₀ st₀) (run : (machine τ).Run Confined h st)
    (idle : (st.thread t).frame.idle = true)
    : SameWithout layout h st t := by
  obtain ⟨newer, older, entry, euid, c, split, entered, events⟩ := erases.events
  refine ⟨newer, older, entry, euid, c, h₀, st₀, split, by rw [entered, erases.calls],
    (Confined.run_iff layout).mpr erases.run, events, ?_, entered.symm, erases.others⟩
  have debt : st.debt t = .none := by
    rw [State.debt, calm_run run t idle]
    obtain ⟨last, user⟩ := Frame.eq_user_of_idle idle
    rw [user]
    rfl
  rw [erases.kernel, debt, Kernel.owing_none _ _ (calm_run erases.run t erases.idle)]

/-- The protection of a service that only the user `owner` may use. -/
structure OwnerOnly (layout : Layout τ) (h : History (State τ) (Event τ)) (st : State τ) (s : Ref)
    (owner : Int)
    : Prop where
  /-- No step of a call of somebody else changes the service or moves another thread. -/
  untouched
    : ∀ t external st' euid,
        (st.thread t).frame.actor = some euid
        → euid ≠ owner
        → st.SendsFit (.run t external)
        → layout.step st (.run t external) = some st'
        → Untouched st st' t s
  /-- The callbacks that will change it were registered by calls of the owner. -/
  callbacks : ∀ b ∈ st.pending, b.service = s → RegisteredBy h b owner
  /-- The wait of a receiver has been ended by a signal, or by a call of the owner. -/
  receivers
    : ∀ t f,
        (st.thread t).frame = .receive f
        → f.ts = s
        → f.pc = .ret 0 ∨ f.pc = .ret (-EINTR)
        → FoundSignal h t (st.thread t).calls s f.level
          ∨ Once
              (fun past st₁ e₁ =>
                st₁.Receives t (st.thread t).calls s f.level
                ∧ (AwakeBy s (· = owner) past st₁ e₁ ∨ ReadyBy s f.level (· = owner) past st₁ e₁))
              h
  /-- A call of somebody else that was directed at it has returned an error, and has made no
  difference.
  -/
  refused
    : ∀ t euid,
        euid ≠ owner
        → (st.kernel.service s).lazyDeleted = false
        → Aimed h t (st.thread t).calls s euid
        → (st.thread t).frame.idle = true
        → (∃ r, (st.thread t).frame = .user (some r) ∧ r < 0) ∧ SameWithout layout h st t

omit [DecidableEq τ] in
theorem negative_of_refusal {r : Int} (refused : refusal r = true) : r < 0 := by
  rcases Bool.or_eq_true_iff.mp refused with same | same
  · exact (eq_of_beq same) ▸ (by decide)
  · exact (eq_of_beq same) ▸ (by decide)

/-- Where a message stands when all of them stand one behind the other. -/
def messageInOrder (s : Ref) (l : Int) : Int := MAX_MESSAGE_SIZE * (MAX_LEVELS * s + l)

omit [DecidableEq τ] in
theorem messageInOrder_apart {r s : Ref} {k l : Int} (inLevel : IsLevel l) (inLevel' : IsLevel k)
    (below : messageInOrder s l < messageInOrder r k + MAX_MESSAGE_SIZE)
    (above : messageInOrder r k < messageInOrder s l + MAX_MESSAGE_SIZE)
    : s = r ∧ l = k := by
  obtain ⟨low, high⟩ := inLevel
  obtain ⟨low', high'⟩ := inLevel'
  simp only [messageInOrder, MAX_MESSAGE_SIZE, MAX_LEVELS] at *
  have place : 32 * (s : Int) + l = 32 * r + k := by omega
  have service : (s : Int) = r := by omega
  exact ⟨Int.ofNat_inj.mp service, by omega⟩

omit [DecidableEq τ] in
theorem messageInOrder_behind {s : Ref} {l : Int} (inLevel : IsLevel l)
    : -32768 + TAG_SERVICE_SIZE * MAX_TAG_SERVICES ≤ messageInOrder s l := by
  obtain ⟨low, high⟩ := inLevel
  simp only [messageInOrder, MAX_MESSAGE_SIZE, MAX_LEVELS, TAG_SERVICE_SIZE, MAX_TAG_SERVICES] at *
  omega

/-- The blocks in the order in which they are asked for, one behind the other. -/
def Layout.inOrder : Layout (Fin 2) where
  message := messageInOrder
  page c := -65536 * (c.1 + 1)
  allTagServices := -32768
  pointer _ _ := 255
  apart _ _ _ _ inLevel inLevel' below above := messageInOrder_apart inLevel inLevel' below above
  behind _ _ inLevel := .inl (messageInOrder_behind inLevel)

end TagExchange
