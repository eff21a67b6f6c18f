import TagExchange.Properties.Deliveries
import TagExchange.Properties.ReadSections

/-! No message is lost to a thread that slept when it came, as long as the callback that takes
the message back is registered after those threads have opened their read-side sections.
-/

namespace TagExchange

open Concurrency Protocol

variable {τ : Type}

-----------------------------------------------------------------------------------------
-- Sleepers and the callback
-----------------------------------------------------------------------------------------

/-- The tag and the level that a thread is asleep on. -/
def Frame.asleepOn : Frame → Option (Int × Int)
  | receive f =>
      match f.pc with
      | .sleep => some (f.tag, f.level)
      | _ => none
  | _ => none

/-- A receiver between its sleep and its read-side section. -/
def Frame.beforeSection : Frame → Bool
  | receive f =>
      match f.pc with
      | .prepare | .testReady | .testAwake | .sleep | .finish | .rcuLock => true
      | _ => false
  | _ => false

/-- The call `r` was asleep on the tag and the level of the send `c` when that made the level
`READY`.
-/
def Slept (h : History (State τ) (Event τ)) (c r : CallId τ) : Prop :=
  Once (fun _ st e =>
    ∃ g,
      st.Posts g.ts g.level c g e
      ∧ (st.thread r.1).calls = r.2
      ∧ (st.thread r.1).frame.asleepOn = some (g.tag, g.level)) h

/-- The callback that the send `c` has registered makes its next step, before it prints its message. -/
def Executes (s : Ref) (l : Int) (c : CallId τ) (st : State τ) (e : Event τ) : Prop :=
  ∃ n b,
    e = .softirq n
    ∧ st.kernel.rcu.ready? n = some b
    ∧ b.job = .freeAfterSend l
    ∧ b.service = s
    ∧ b.caller = c
    ∧ b.owes = true

/-- A send registers its callback when every thread that it found asleep, unless that has got
a signal, has opened its read-side section.
-/
def RegistersLast : Guard (State τ) (Event τ) :=
  fun h st e =>
    ∀ c g,
      (∃ external, e = .run c.1 external)
      → st.thread c.1 = ⟨c.2, .send g⟩
      → g.pc = .callRcu
      → ∀ r,
          Slept h c r
          → (st.thread r.1).calls = r.2
          → st.kernel.signalled r.1 = false
          → (st.thread r.1).frame.beforeSection = false

/-- The runs in which callbacks are registered that late, and receivers register in time. -/
def Unhurried [DecidableEq τ] : Guard (State τ) (Event τ) :=
  fun h st e => ReuseUnheld st e ∧ RegistersInTime h st e ∧ RegistersLast h st e

/-- A receiver that has slept and has still to copy the message. -/
def ReceivePc.awaits : ReceivePc → Bool
  | .prepare | .testReady | .sleep | .finish | .rcuLock | .signal | .ready | .size | .copy => true
  | _ => false

/-- The message of the send `c` stays for the call `r`: the send has not registered its callback
yet, or the callback waits for the section of that call.
-/
inductive State.Keeps (st : State τ) (c r : CallId τ) (s : Ref) (l : Int) : Prop
  | sender {g} (thread : st.thread c.1 = ⟨c.2, .send g⟩)
    (pc : g.pc = .waiters ∨ g.pc = .wakeUp ∨ g.pc = .callRcu) (service : g.ts = s)
    (level : g.level = l)
  | callback {p} (inside : (st.thread r.1).frame.inSection = true)
    (member : p ∈ st.kernel.rcu.pending)
    (same : p.callback = ⟨.freeAfterSend l, s, .clear, c⟩) (waits : r.1 ∈ p.waits)

variable [DecidableEq τ] {h : History (State τ) (Event τ)} {st st' : State τ} {e : Event τ}
  {s : Ref} {l : Int} {c r : CallId τ}

theorem Unhurried.unheld (run : (machine τ).Run Unhurried h st) : (machine τ).Run Unheld h st :=
  run.mono fun _ _ _ ok => ok.1

theorem Unhurried.timely (run : (machine τ).Run Unhurried h st)
    : (machine τ).Run RegistersInTime h st :=
  run.mono fun _ _ _ ok => ok.2.1

/-- A call that a thread makes after a step, and made at an earlier moment, it made before the step. -/
theorem calls_of_once {G : Guard (State τ) (Event τ)} {t : τ} {n : Nat}
    (before : (machine τ).Run G h st) (step : st.step e = some st')
    (calls : (st'.thread t).calls = n) (earlier : Once (fun _ st _ => (st.thread t).calls = n) h)
    : (st.thread t).calls = n := by
  rcases calls_of_step step t with same | ⟨more, -⟩
  · exact same.symm.trans calls
  · obtain ⟨m, st₁, e₁, found, old⟩ := earlier.moment
    have bound := calls_le_of_mem (t := t) before (List.mem_of_getElem? found)
    rw [old, ← calls, more] at bound
    exact absurd bound (Nat.not_succ_le_self _)

omit [DecidableEq τ] in
/-- The view of a sender that has made its level `READY`. -/
theorem view_of_posted {g : SendFrame} (thread : st.thread c.1 = ⟨c.2, .send g⟩)
    (pc : g.pc = .waiters ∨ g.pc = .wakeUp ∨ g.pc = .callRcu)
    : st.view c.1 = .posted g.ts g.tag g.level := by
  obtain ⟨tag, level, buffer, size, euid, realSize, stored, ts, point⟩ := g
  rcases pc with rfl | rfl | rfl <;> simp only [State.view, thread] <;> rfl

omit [DecidableEq τ] in
/-- A message that stays is there. -/
theorem State.Keeps.ready (keeps : st.Keeps c r s l) (x : Safe st.kernel.core st.view)
    : st.ready s l = true := by
  cases keeps with
  | @sender g thread pc service level =>
      have fact := x.fact c.1
      rw [view_of_posted thread pc] at fact
      rw [← service, ← level]
      exact fact.2
  | @callback p inside member same waits =>
      have registered : p.callback ∈ st.kernel.rcu.callbacks := List.mem_map_of_mem member
      rw [same] at registered
      exact ((x.callback _ (Rcu.mem_among.mpr ⟨registered, rfl⟩)).ready rfl).mpr rfl

omit [DecidableEq τ] in
/-- As long as the message stays, the callback of its send does not execute. -/
theorem State.Keeps.silent (keeps : st.Keeps c r s l) (x : Safe st.kernel.core st.view)
    : ¬ Executes s l c st e := by
  rintro ⟨n, b, rfl, ready, job, service, caller, owes⟩
  have here := st.kernel.rcu.callbacks_of_ready? ready
  cases keeps with
  | @sender g thread pc same level =>
      have view := view_of_posted thread pc
      have owner : (st.view c.1).lock = some g.tag := by rw [view]; rfl
      have tagged := x.tag_of_view owner (s := g.ts) (by rw [view]; rfl)
      have pending := Rcu.mem_among.mpr ⟨List.mem_of_getElem? here, owes⟩
      exact x.no_callback owner tagged pending (service.trans same.symm)
  | @callback p inside member same waits =>
      obtain ⟨m, found⟩ := List.getElem?_of_mem member
      have there : st.kernel.rcu.callbacks[m]? = some p.callback := by
        simp [Rcu.callbacks, found]
      obtain rfl := st.kernel.rcu.position_unique x.excl.once here there owes (by rw [same]; rfl)
        (by rw [same, service])
      have alone := found.symm.trans (st.kernel.rcu.ready?_eq_some ready)
      rw [Option.some.inj alone] at waits
      exact absurd waits List.not_mem_nil

/-- The message stays from one step to the next, by cases on where its send stands. -/
theorem State.Keeps.step (keeps : st.Keeps c r s l) (before : (machine τ).Run Unhurried h st)
    (ok : Unhurried h st e) (step : st.step e = some st') (slept : Slept h c r)
    (calls : (st.thread r.1).calls = r.2) (calm : st.kernel.signalled r.1 = false)
    {f : ReceiveFrame} (here : (st.thread r.1).frame = .receive f) (awaits : f.pc.awaits = true)
    (service : f.ts = s)
    (own
      : (∃ external, e = .run r.1 external)
        → (st.thread r.1).frame.inSection = true
        → st'.kernel.rcu = st.kernel.rcu ∧ (st'.thread r.1).frame.inSection = true)
    : st'.Keeps c r s l := by
  have registered : (st.thread r.1).frame.registered = some s := by
    obtain ⟨tag, level, buffer, size, euid, ts, realSize, interrupted, copied, pc⟩ := f
    rw [here, ← service]
    cases pc <;> first | rfl | cases awaits
  cases keeps with
  | @sender g thread pc service' level =>
      cases turn_of_step step c.1 with
      | rest other same => exact .sender (same.trans thread) pc service' level
      | enter event idle same =>
          rw [thread] at idle
          cases idle
      | @go external frame event exec same =>
          rw [thread] at same
          have post := ok.2.2 c g ⟨external, event⟩ thread
          have inside := readers_run before (t := r.1)
          rw [State.op, thread] at exec
          have rcu := (Kernel.exec_performs exec).rcu
          have move := sendMove_of_exec exec
          obtain ⟨tag, level', buffer, size, euid, realSize, stored, ts, point⟩ := g
          change SendMove st.kernel _ point frame at move
          cases move with
          | attended => exact .sender same (.inr (.inl rfl)) service' level
          | unattended nobody =>
              obtain rfl : ts = s := service'
              have x := waitersBlock_run (Unhurried.timely before)
              have held := registered_mem_pointers registered
              obtain ⟨-, counted⟩ :=
                x.counted (pointers_born before r.1 ts held) (x.registered registered).2
              exact absurd nobody (counted.pos registered).ne'
          | wakeUp => exact .sender same (.inr (.inr rfl)) service' level
          | callRcu =>
              have apart : r.1 ≠ c.1 := by
                intro twice
                rw [twice, thread] at here
                cases here
              have opened := post rfl r slept calls calm
              have section_ : (st.thread r.1).frame.inSection = true := by
                obtain ⟨tag, level, buffer, size, euid, ts, realSize, interrupted, copied, pc⟩ := f
                rw [here] at opened ⊢
                cases pc <;> first | rfl | cases awaits; done | cases opened
              obtain rfl : ts = s := service'
              obtain rfl : level' = l := level
              obtain ⟨p, member, callback, waits⟩ := st.kernel.rcu.waits_callRcu
                (inside section_) ⟨.freeAfterSend level', ts, .clear, c⟩
              refine .callback ?_ (rcu ▸ member) callback waits
              cases turn_of_step step r.1 with
              | rest _ same => rw [same, section_]
              | enter event' idle _ => cases event.symm.trans event'
              | go event' _ _ =>
                  obtain ⟨twice, -⟩ := Event.run.inj (event.symm.trans event')
                  exact absurd twice.symm apart
          | _ => rcases pc with pc | pc | pc <;> cases pc
  | @callback p inside member same waits =>
      have stays external (event : e = .run r.1 external) : st'.kernel.rcu = st.kernel.rcu :=
        (own ⟨external, event⟩ inside).1
      obtain ⟨q, member, callback, waits⟩ := waits_of_step step stays member waits
      refine .callback ?_ member (callback.trans same) waits
      cases turn_of_step step r.1 with
      | rest _ same => rw [same, inside]
      | enter event idle _ =>
          rw [here] at idle
          cases idle
      | @go external frame event _ _ => exact (own ⟨external, event⟩ inside).2

-----------------------------------------------------------------------------------------
-- Who has slept
-----------------------------------------------------------------------------------------

omit [DecidableEq τ] in
theorem Frame.eq_receive_of_asleepOn {frame : Frame} {i : Int} (asleep : frame.asleepOn = some (i, l))
    : ∃ f, frame = .receive f ∧ f.pc = .sleep ∧ f.tag = i ∧ f.level = l := by
  cases frame with
  | receive f =>
      obtain ⟨tag, level, buffer, size, euid, ts, realSize, interrupted, copied, pc⟩ := f
      cases pc <;> cases asleep
      exact ⟨_, rfl, rfl, rfl, rfl⟩
  | _ => cases asleep

/-- A thread that is asleep on the tag and the level of a send sleeps on the service to which
the message goes.
-/
theorem service_of_asleep (before : (machine τ).Run Unhurried h st) {g : SendFrame}
    (posts : st.Posts s l c g e) {t : τ} {f : ReceiveFrame} (here : (st.thread t).frame = .receive f)
    (asleep : f.pc = .sleep) (tag : f.tag = g.tag)
    : f.ts = s := by
  have registered : (st.thread t).frame.registered = some f.ts := by
    rw [here]
    simp only [Frame.registered, asleep]
  have slot := slot_of_registered (Unhurried.unheld before) (Unhurried.timely before) here registered
  have fact := (Unheld.safe (Unhurried.unheld before)).fact c.1
  have view : st.view c.1 = .filling g.ts g.tag g.level := by
    obtain ⟨tag, level, buffer, size, euid, realSize, stored, ts, pc⟩ := g
    obtain rfl : pc = .ready := posts.pc
    simp only [State.view, posts.thread]
    rfl
  rw [view] at fact
  have same : st.kernel.tsm.allTagServices g.tag = some g.ts := fact.1.1
  rw [tag] at slot
  exact (Option.some.inj (slot.symm.trans same)).trans posts.service

/-- Where a thread stands that slept when a message came: it has copied the message, or that
stays for it.
-/
structure ReceiveFrame.Awaiting (f : ReceiveFrame) (h : History (State τ) (Event τ)) (st : State τ)
    (c r : CallId τ)
    : Prop where
  awaits : f.pc.awaits = true
  keeps : st.Keeps c r f.ts f.level
  unexecuted
    : Since (fun _ st e => ¬ Executes f.ts f.level c st e) (Posted f.ts f.level c) h

/-- A receiver that awaits the message comes to copy it, by cases on its moves. -/
theorem ReceiveFrame.Awaiting.move {f f' : ReceiveFrame} {external : Nat}
    (awaiting : f.Awaiting h st c r) (before : (machine τ).Run Unhurried h st)
    (ok : Unhurried h st e) (step : st.step e = some st') (slept : Slept h c r)
    (calls : (st.thread r.1).calls = r.2) (calm : st.kernel.signalled r.1 = false)
    (event : e = .run r.1 external) (here : (st.thread r.1).frame = .receive f)
    (after : (st'.thread r.1).frame = .receive f')
    (move : ReceiveMove st.kernel r.1 f f.pc (.receive f'))
    : f'.pc.received = true ∨ f'.Awaiting ((st, e) :: h) st' c r := by
  have x := Unheld.safe (Unhurried.unheld before)
  obtain ⟨awaits, keeps, unexecuted⟩ := awaiting
  have ready := keeps.ready x
  have silent := keeps.silent x (e := e)
  have rcu : (st.thread r.1).frame.op (r.1, (st.thread r.1).calls) = tagReceive r.1 f := by
    rw [here]
    rfl
  -- As long as the receiver goes on towards the copy, the message stays.
  have stay (awaits' : f'.pc.awaits = true) (ts : f'.ts = f.ts) (level : f'.level = f.level)
      (own
        : (st.thread r.1).frame.inSection = true
          → (tagReceive r.1 f).onRcu st.kernel = st.kernel.rcu
            ∧ (Frame.receive f').inSection = true)
      : f'.pc.received = true ∨ f'.Awaiting ((st, e) :: h) st' c r := by
    refine .inr ⟨awaits', ?_, ?_⟩
    · rw [ts, level]
      refine keeps.step before ok step slept calls calm here awaits rfl fun _ inside => ?_
      obtain ⟨same, inside'⟩ := own inside
      refine ⟨?_, after ▸ inside'⟩
      cases turn_of_step step r.1 with
      | rest other _ => exact absurd event (other external)
      | enter event' _ _ => cases event.symm.trans event'
      | go event' exec _ =>
          have performs := (Kernel.exec_performs exec).rcu
          rw [State.op, rcu] at performs
          exact performs.trans same
    · rw [ts, level]
      exact unexecuted.later silent
  rw [here] at stay
  obtain ⟨tag, level, buffer, size, euid, ts, realSize, interrupted, copied, pc⟩ := f
  cases pc
  case prepare => cases move; exact stay rfl rfl rfl fun inside => by cases inside
  case sleep => cases move; exact stay rfl rfl rfl fun inside => by cases inside
  case finish => cases move; exact stay rfl rfl rfl fun inside => by cases inside
  case rcuLock => cases move; exact stay rfl rfl rfl fun inside => by cases inside
  case testReady =>
    cases move with
    | testReady => exact stay rfl rfl rfl fun inside => by cases inside
    | testNotReady missing => exact absurd (ready.symm.trans missing) (by decide)
  case signal =>
    cases move with
    | signal pending => exact absurd (pending.symm.trans calm) (by decide)
    | noSignal => exact stay rfl rfl rfl fun _ => ⟨rfl, rfl⟩
  case ready =>
    cases move with
    | ready => exact stay rfl rfl rfl fun _ => ⟨rfl, rfl⟩
    | notReady missing => exact absurd (ready.symm.trans missing) (by decide)
  case size => cases move; exact stay rfl rfl rfl fun _ => ⟨rfl, rfl⟩
  case copy => cases move; exact .inl rfl
  all_goals cases awaits

omit [DecidableEq τ] in
/-- What a receiver has received it keeps, by cases on its moves. -/
theorem received_of_move {k : Kernel τ} {t : τ} {f f' : ReceiveFrame} (received : f.pc.received = true)
    (move : ReceiveMove k t f f.pc (.receive f'))
    : f'.pc.received = true := by
  obtain ⟨tag, level, buffer, size, euid, ts, realSize, interrupted, copied, pc⟩ := f
  cases pc
  case left x pc =>
    cases move with
    | leaving => exact received
    | leftAwake => cases received
    | left =>
        cases x with
        | message => rfl
        | _ => cases received
  case rcuUnlock => cases move; exact received
  case decCount => cases move; exact received
  case decLevel => cases move; exact received
  case ret => cases move
  all_goals cases received

/-- A thread that slept when a message came awaits it or has received it, by induction on the
run.
-/
theorem awaiting_run (run : (machine τ).Run Unhurried h st) (slept : Slept h c r)
    (calls : (st.thread r.1).calls = r.2) (calm : st.kernel.signalled r.1 = false)
    : ∀ {f},
        (st.thread r.1).frame = .receive f → f.pc.received = true ∨ f.Awaiting h st c r := by
  induction run with
  | start => exact absurd slept not_once_nil
  | @next h st e st' before ok step ih =>
      have step : st.step e = some st' := step
      intro f' after
      have quiet : st.kernel.signalled r.1 = false := by
        rcases signalled_of_step step r.1 with same | ⟨-, pending⟩ | ⟨-, idle⟩
        · exact same ▸ calm
        · simp [pending] at calm
        · rw [after] at idle
          cases idle
      cases slept with
      | here now =>
          obtain ⟨g, posts, asleep⟩ := now
          obtain ⟨-, asleep⟩ := asleep
          obtain ⟨f, here, pc, tag, level⟩ := Frame.eq_receive_of_asleepOn asleep
          obtain ⟨external, event⟩ := posts.event
          have ts := service_of_asleep before posts here pc tag
          have apart : r.1 ≠ c.1 := by
            intro twice
            rw [twice, posts.thread] at here
            cases here
          have rest : st'.thread r.1 = st.thread r.1 := by
            cases turn_of_step step r.1 with
            | rest _ same => exact same
            | enter event' _ _ => cases event.symm.trans event'
            | go event' _ _ =>
                obtain ⟨twice, -⟩ := Event.run.inj (event.symm.trans event')
                exact absurd twice.symm apart
          rw [rest, here] at after
          obtain rfl := Frame.receive.inj after
          refine .inr ⟨by rw [pc]; rfl, ?_, .here ⟨g, ?_⟩⟩
          · cases turn_of_step step c.1 with
            | rest other _ => exact absurd event (other external)
            | enter event' _ _ => cases event.symm.trans event'
            | @go external' frame event' exec same =>
                rw [State.op, posts.thread] at exec
                have move := sendMove_of_exec exec
                have posted := posts.pc
                rw [posts.thread] at same
                obtain ⟨tag, level, buffer, size, euid, realSize, stored, s, point⟩ := g
                obtain rfl : point = .ready := posted
                change SendMove st.kernel _ .ready frame at move
                cases move
                exact .sender same (.inl rfl) ts.symm level.symm
          · rw [ts, level]
            exact posts
      | later earlier =>
          have still : (st.thread r.1).calls = r.2 := by
            refine calls_of_once before step calls (Once.mono (fun _ _ _ now => ?_) earlier)
            obtain ⟨g, -, calls, -⟩ := now
            exact calls
          cases receiveTurn_of_step step after with
          | rest other same =>
              rw [same] at after
              rcases ih earlier still quiet after with received | ⟨awaits, keeps, unexecuted⟩
              · exact .inl received
              · refine .inr ⟨awaits, ?_, ?_⟩
                · refine keeps.step before ok step earlier still quiet after awaits rfl ?_
                  rintro ⟨external, own⟩
                  exact absurd own (other external)
                · exact unexecuted.later (keeps.silent (Unheld.safe (Unhurried.unheld before)))
          | enter more _ =>
              rw [calls, ← still] at more
              exact absurd more (Nat.ne_of_lt (Nat.lt_succ_self _))
          | @move external f pc frame event here _ point move target =>
              obtain rfl := point
              subst target
              rcases ih earlier still quiet here with received | awaiting
              · exact .inl (received_of_move received move)
              · exact awaiting.move before ok step earlier still quiet event here after move

-----------------------------------------------------------------------------------------
-- The law
-----------------------------------------------------------------------------------------

/-- As long as callbacks are registered that late, a thread that was asleep when a message came
to its tag and level, and has got no signal, does not go back to sleep and does not return
`-EINTR`, and the callback does not execute before it has copied the message.
-/
theorem no_lost_message (run : (machine τ).Run Unhurried h st) (slept : Slept h c r)
    (calls : (st.thread r.1).calls = r.2) (calm : st.kernel.signalled r.1 = false)
    {f : ReceiveFrame} (here : (st.thread r.1).frame = .receive f)
    : f.pc ≠ .testAwake
      ∧ (∀ n, f.pc = .ret n → n = 0)
      ∧ (f.pc.received = false
          → st.ready f.ts f.level = true
            ∧ Since (fun _ st e => ¬ Executes f.ts f.level c st e) (Posted f.ts f.level c) h) := by
  rcases awaiting_run run slept calls calm here with received | ⟨awaits, keeps, unexecuted⟩
  · refine ⟨fun test => ?_, fun n ret => ?_, fun missing => ?_⟩
    · rw [test] at received
      cases received
    · rw [ret] at received
      exact eq_of_beq received
    · exact absurd (received.symm.trans missing) (by decide)
  · refine ⟨fun test => ?_, fun n ret => ?_, fun _ => ⟨?_, unexecuted⟩⟩
    · rw [test] at awaits
      cases awaits
    · rw [ret] at awaits
      cases awaits
    · exact keeps.ready (Unheld.safe (Unhurried.unheld run))

/-- The tag and the level that a send is about to make `READY`. -/
def Frame.posting : Frame → Option (Int × Int)
  | send g =>
      match g.pc with
      | .ready => some (g.tag, g.level)
      | _ => none
  | _ => none

/-- A send that is about to register its callback. -/
def Frame.defers : Frame → Bool
  | send g =>
      match g.pc with
      | .callRcu => true
      | _ => false
  | _ => false

/-- The thread whose step an event is. -/
def Event.runner : Event τ → Option τ
  | run t _ => some t
  | _ => none

omit [DecidableEq τ] in
theorem slept_of_mem {t u : τ} (member : (st, e) ∈ h) (event : e.runner = some t) {i : Int}
    (posting : (st.thread t).frame.posting = some (i, l))
    (asleep : (st.thread u).frame.asleepOn = some (i, l))
    : Slept h (t, (st.thread t).calls) (u, (st.thread u).calls) := by
  refine once_of_mem member ?_
  cases e with
  | run v external =>
      obtain rfl := Option.some.inj event
      cases here : (st.thread v).frame with
      | send g =>
          rw [here] at posting
          obtain ⟨tag, level, buffer, size, euid, realSize, stored, ts, pc⟩ := g
          cases pc <;> cases posting
          exact ⟨_, ⟨⟨external, rfl⟩, congrArg (Thread.mk _) here, rfl, rfl, rfl⟩, rfl, asleep⟩
      | _ => rw [here] at posting; cases posting
  | _ => cases event

/-- The same condition, for memory that is never given out again, where nobody at all is on
the way to a read-side section when a callback is registered.
-/
def UnhurriedFresh : Guard (State τ) (Event τ) :=
  fun h st e =>
    NoReuse e
    ∧ RegistersInTime h st e
    ∧ ∀ t,
        e.runner = some t
        → (st.thread t).frame.defers = true
        → ∀ u, (st.thread u).frame.beforeSection = false

instance [Fintype τ] (h : History (State τ) (Event τ)) (st : State τ) (e : Event τ)
    : Decidable (UnhurriedFresh h st e) :=
  inferInstanceAs (Decidable (_ ∧ _ ∧ _))

theorem UnhurriedFresh.unhurried (run : (machine τ).Run UnhurriedFresh h st)
    : (machine τ).Run Unhurried h st := by
  refine run.mono fun h st e ok => ⟨by cases e <;> first | exact ok.1.elim | trivial, ok.2.1, ?_⟩
  rintro c g ⟨external, rfl⟩ thread pc r - - -
  refine ok.2.2 c.1 rfl ?_ r.1
  rw [thread]
  simp only [Frame.defers, pc]

/-- The test that a replay has come to a thread `u` that slept when the thread `t` sent. -/
def sleptTest (t u : Fin 2) (h : History (State (Fin 2)) (Event (Fin 2))) (st : State (Fin 2))
    : Bool :=
  h.any fun moment =>
    moment.2.runner == some t
    && (moment.1.thread t).frame.posting == some (1, 3)
    && (moment.1.thread u).frame.asleepOn == some (1, 3)
    && (moment.1.thread u).calls == (st.thread u).calls

theorem slept_of_test {h : History (State (Fin 2)) (Event (Fin 2))} {st : State (Fin 2)}
    {t u : Fin 2} (passes : sleptTest t u h st = true)
    : ∃ n, Slept h (t, n) (u, (st.thread u).calls) := by
  obtain ⟨⟨st₁, e₁⟩, member, facts⟩ := List.any_eq_true.mp passes
  simp only [Bool.and_eq_true, beq_iff_eq] at facts
  obtain ⟨⟨⟨event, posting⟩, asleep⟩, calls⟩ := facts
  exact ⟨_, calls ▸ slept_of_mem member event posting asleep⟩

/-- A receiver that is about to copy. -/
def Frame.copies : Frame → Bool
  | receive f =>
      match f.pc with
      | .copy => true
      | _ => false
  | _ => false

/-- A receiver that has found its level `NOT_READY` and tests whether to go to sleep. -/
def Frame.retests : Frame → Bool
  | receive f =>
      match f.pc with
      | .testAwake => true
      | _ => false
  | _ => false

theorem Frame.eq_receive_of_copies {frame : Frame} (copies : frame.copies = true)
    : ∃ f, frame = .receive f ∧ f.pc = .copy := by
  cases frame with
  | receive f =>
      obtain ⟨tag, level, buffer, size, euid, ts, realSize, interrupted, copied, pc⟩ := f
      cases pc <;> cases copies
      exact ⟨_, rfl, rfl⟩
  | _ => cases copies

theorem Frame.eq_receive_of_retests {frame : Frame} (retests : frame.retests = true)
    : ∃ f, frame = .receive f ∧ f.pc = .testAwake := by
  cases frame with
  | receive f =>
      obtain ⟨tag, level, buffer, size, euid, ts, realSize, interrupted, copied, pc⟩ := f
      cases pc <;> cases retests
      exact ⟨_, rfl, rfl⟩
  | _ => cases retests

/-- A sleeper opens its section before the callback is registered: the message is still there
when it comes to copy.
-/
theorem no_lost_message_of_sleeper
    : ∃ h st f n,
        (machine (Fin 2)).Run Unhurried h st
        ∧ Slept h (0, n) (1, (st.thread 1).calls)
        ∧ ((st.thread 1).frame = .receive f ∧ f.pc = .copy)
        ∧ st.kernel.rcu.pending.length = 1
        ∧ st.ready f.ts f.level = true := by
  obtain ⟨h, st, run, facts⟩ := Machine.Run.exists_of_replay
    (M := machine (Fin 2)) (G := UnhurriedFresh)
    (creating 0 1 ++ fallingAsleep 1 1 3 ++ sending 0 1 3 [104, 105] 13 ++ runs 1 5 ++ runs 0 1
      ++ runs 1 3)
    (fun h st => sleptTest 0 1 h st && (st.thread 1).frame.copies
      && st.kernel.signalled 1 == false && st.kernel.rcu.pending.length == 1)
    (by decide +kernel)
  simp only [Bool.and_eq_true, beq_iff_eq] at facts
  obtain ⟨⟨⟨slept, copies⟩, calm⟩, registered⟩ := facts
  obtain ⟨n, slept⟩ := slept_of_test slept
  obtain ⟨f, here, pc⟩ := Frame.eq_receive_of_copies copies
  have run := UnhurriedFresh.unhurried run
  have law := no_lost_message run slept rfl calm here
  exact ⟨h, st, f, n, run, slept, ⟨here, pc⟩, registered, (law.2.2 (by rw [pc]; rfl)).1⟩

/-- Without the condition the message is lost: the callback runs before the thread that it has
woken opens its section, and the thread goes back to the test behind which it sleeps.
-/
theorem loses_message
    : ¬ ∀ (h : History (State (Fin 2)) (Event (Fin 2))) (st : State (Fin 2))
          (c r : CallId (Fin 2)) (f : ReceiveFrame),
        (machine (Fin 2)).Run anyStep h st
        → Slept h c r
        → (st.thread r.1).calls = r.2
        → st.kernel.signalled r.1 = false
        → (st.thread r.1).frame = .receive f
        → f.pc ≠ .testAwake := by
  intro always
  obtain ⟨h, st, run, facts⟩ := Machine.Run.exists_of_replay
    (M := machine (Fin 2)) (G := anyStep)
    (creating 0 1 ++ fallingAsleep 1 1 3 ++ sending 0 1 3 [104, 105] 16 ++ [.softirq 0] ++ runs 1 3)
    (fun h st => sleptTest 0 1 h st && (st.thread 1).frame.retests && st.kernel.signalled 1 == false)
    (by decide +kernel)
  simp only [Bool.and_eq_true, beq_iff_eq] at facts
  obtain ⟨⟨slept, retests⟩, calm⟩ := facts
  obtain ⟨n, slept⟩ := slept_of_test slept
  obtain ⟨f, here, pc⟩ := Frame.eq_receive_of_retests retests
  exact always h st (0, n) (1, (st.thread 1).calls) f run slept rfl calm here pc

end TagExchange
