import TagExchange.Properties.CallLengths
import TagExchange.Properties.LockDiscipline
import TagExchange.Properties.NoLostMessage

/-! Whom an `AWAKE_ALL` awakes: the threads that slept when it set `awake_request`, as long as
that stands until they have left their wait, and nobody whose wait began after its return.
-/

namespace TagExchange

open Concurrency Protocol

variable {τ : Type}

-----------------------------------------------------------------------------------------
-- Requests and waits
-----------------------------------------------------------------------------------------

/-- The call `c` sets `awake_request` of the service. -/
def RequestedBy (s : Ref) (c : CallId τ) : Guard (State τ) (Event τ) :=
  fun _ st e => ∃ g, st.Requests s c g e

/-- No call sets `awake_request` of the service. -/
def NoRequest (s : Ref) : Guard (State τ) (Event τ) :=
  fun _ st e => ∀ c g, ¬ st.Requests s c g e

/-- The call `c` sets `awake_request` while the call `r` is asleep on its tag, at some level. -/
def FindsAsleep (c r : CallId τ) : Guard (State τ) (Event τ) :=
  fun _ st e =>
    ∃ g l,
      st.Requests g.ts c g e
      ∧ (st.thread r.1).calls = r.2
      ∧ (st.thread r.1).frame.asleepOn = some (g.tag, l)

/-- The call `r` was asleep when the call `c` set `awake_request`. -/
def SleptThrough (h : History (State τ) (Event τ)) (c r : CallId τ) : Prop :=
  Once (FindsAsleep c r) h

/-- In the wait, behind its first test. -/
def ReceivePc.waits : ReceivePc → Bool
  | .prepare | .testReady | .testAwake | .sleep => true
  | _ => false

def Frame.waits : Frame → Bool
  | receive f => f.pc.waits
  | _ => false

/-- The call begins its wait on the service. -/
def Begins (s : Ref) (r : CallId τ) : Guard (State τ) (Event τ) :=
  fun _ st e =>
    (∃ external, e = .run r.1 external)
    ∧ (st.thread r.1).calls = r.2
    ∧ ∃ f, (st.thread r.1).frame = .receive f ∧ f.pc = .firstReady ∧ f.ts = s

/-- The call ends its wait, as it has found `awake_request` set. -/
def EndsAwake (s : Ref) (r : CallId τ) : Guard (State τ) (Event τ) :=
  fun _ st e =>
    (∃ external, e = .run r.1 external)
    ∧ (st.thread r.1).calls = r.2
    ∧ st.awake s = true
    ∧ ∃ f,
        (st.thread r.1).frame = .receive f
        ∧ (f.pc = .firstAwake ∨ f.pc = .testAwake)
        ∧ f.ts = s

/-- The request of the call `c` is taken back, by the call or by its callback. -/
inductive State.TakesBack (st : State τ) (c : CallId τ) : Event τ → Prop
  | call {external g} (thread : st.thread c.1 = ⟨c.2, .ctl g⟩) (pc : g.pc = .reset)
    : TakesBack st c (.run c.1 external)
  | callback {n b} (ready : st.kernel.rcu.ready? n = some b) (job : b.job = .resetAwakeCondition)
    (stage : b.stage = .clear) (caller : b.caller = c)
    : TakesBack st c (.softirq n)

/-- A request is taken back only when no thread that it found asleep is still in its wait. -/
def ResetsLast : Guard (State τ) (Event τ) :=
  fun h st e =>
    ∀ c,
      st.TakesBack c e
      → ∀ r,
          SleptThrough h c r → (st.thread r.1).calls = r.2 → (st.thread r.1).frame.waits = false

/-- The call `c` wakes the queue up for its request. -/
def Wakes (c : CallId τ) : Guard (State τ) (Event τ) :=
  fun _ st e =>
    (∃ external, e = .run c.1 external) ∧ ∃ g, st.thread c.1 = ⟨c.2, .ctl g⟩ ∧ g.pc = .wakeUp

/-- The call `r` was asleep when the call `c` set `awake_request`, and has been woken since. -/
def Woken (h : History (State τ) (Event τ)) (c r : CallId τ) : Prop :=
  Once (fun past st e => SleptThrough past c r ∧ Wakes c past st e) h

/-- How many steps a thread makes in its wait before it leaves, where `awake_request` is set. -/
def ReceivePc.stepsToLeave : ReceivePc → Nat
  | .sleep => 4
  | .prepare => 3
  | .testReady => 2
  | .testAwake => 1
  | _ => 0

def Frame.stepsToLeave : Frame → Nat
  | receive f => f.pc.stepsToLeave
  | _ => 0

variable [DecidableEq τ]

/-- A receiver begins its wait only while no `AWAKE_ALL` that has returned has its request
standing.
-/
def BeginsAlone : Guard (State τ) (Event τ) :=
  fun h st e =>
    ∀ r s,
      Begins s r h st e
      → st.awake s = true
      → ∀ c, Since (NoRequest s) (RequestedBy s c) h → ¬ st.Returned c

/-- The runs in which requests stand long enough and not too long, and receivers register in
time.
-/
def WellTimed : Guard (State τ) (Event τ) :=
  fun h st e =>
    ReuseUnheld st e ∧ RegistersInTime h st e ∧ ResetsLast h st e ∧ BeginsAlone h st e

variable {h : History (State τ) (Event τ)} {st st' : State τ} {e : Event τ} {s : Ref} {l : Int}
  {c r : CallId τ}

theorem WellTimed.unheld (run : (machine τ).Run WellTimed h st) : (machine τ).Run Unheld h st :=
  run.mono fun _ _ _ ok => ok.1

theorem WellTimed.timely (run : (machine τ).Run WellTimed h st)
    : (machine τ).Run RegistersInTime h st :=
  run.mono fun _ _ _ ok => ok.2.1

-----------------------------------------------------------------------------------------
-- Sleepers
-----------------------------------------------------------------------------------------

/-- The request of the call `c` stands, as the call has still to take it back, or to leave that to a
callback.
-/
structure State.Asks (st : State τ) (c : CallId τ) (s : Ref) (g : CtlFrame) : Prop where
  thread : st.thread c.1 = ⟨c.2, .ctl g⟩
  pc : g.pc = .wakeUp ∨ g.pc = .callRcu ∨ g.pc = .reset
  service : g.ts = s

omit [DecidableEq τ] in
theorem State.Asks.awake {g : CtlFrame} (asks : st.Asks c s g) (x : Safe st.kernel.core st.view)
    : st.awake s = true := by
  obtain ⟨thread, pc, service⟩ := asks
  have fact := x.fact c.1
  obtain ⟨tag, command, euid, ts, index, awakened, point⟩ := g
  subst service
  simp only [State.view, thread, Frame.view] at fact
  rcases pc with rfl | rfl | rfl <;> simp only [CtlFrame.view] at fact <;> split at fact
  all_goals first | exact fact.2 | exact fact.elim

omit [DecidableEq τ] in
/-- The view of a call that is about to make its request. -/
theorem State.Requests.live {g : CtlFrame} (requests : st.Requests s c g e)
    (x : Safe st.kernel.core st.view)
    : st.kernel.tsm.allTagServices g.tag = some s := by
  have fact := x.fact c.1
  obtain ⟨tag, command, euid, ts, index, awakened, point⟩ := g
  obtain rfl : point = .request := requests.pc
  obtain rfl : ts = s := requests.service
  simp only [State.view, requests.thread, Frame.view, CtlFrame.view] at fact
  split at fact
  · exact fact.1
  · exact fact.elim

/-- The thread that makes a request makes no other step. -/
theorem requests_of_step {g : CtlFrame} (requests : st.Requests s c g e)
    (step : st.step e = some st')
    : st'.Asks c s { g with pc := .wakeUp }
      ∧ ∀ t, t ≠ c.1 → st'.thread t = st.thread t := by
  obtain ⟨external, event⟩ := requests.event
  refine ⟨?_, fun t other => ?_⟩
  · cases turn_of_step step c.1 with
    | rest other _ => exact absurd event (other external)
    | enter event' _ _ => cases event.symm.trans event'
    | @go external' frame event' exec same =>
        rw [State.op, requests.thread] at exec
        have move := ctlMove_of_exec exec
        have request := requests.pc
        rw [requests.thread] at same
        obtain ⟨tag, command, euid, ts, index, awakened, point⟩ := g
        obtain rfl : point = .request := request
        change CtlMove st.kernel _ .request frame at move
        cases move
        exact ⟨same, .inl rfl, requests.service⟩
  · cases turn_of_step step t with
    | rest _ same => exact same
    | enter event' _ _ => cases event.symm.trans event'
    | go event' _ _ =>
        obtain ⟨twice, -⟩ := Event.run.inj (event.symm.trans event')
        exact absurd twice.symm other

/-- The request of the call `c` stands, as the call or its callback has still to take it back. -/
inductive State.Demands (st : State τ) (c : CallId τ) (s : Ref) : Prop
  | call {g} (asks : st.Asks c s g)
  | callback (member : ⟨.resetAwakeCondition, s, .clear, c⟩ ∈ st.kernel.rcu.callbacks)

omit [DecidableEq τ] in
theorem State.Demands.awake (demands : st.Demands c s) (x : Safe st.kernel.core st.view)
    : st.awake s = true := by
  cases demands with
  | call asks => exact asks.awake x
  | callback member =>
      exact ((x.callback _ (Rcu.mem_among.mpr ⟨member, rfl⟩)).awake rfl).mpr rfl

/-- A thread that slept when a request came, and still waits, finds the request standing. -/
structure ReceiveFrame.Asked (f : ReceiveFrame) (h : History (State τ) (Event τ)) (st : State τ)
    (c : CallId τ)
    : Prop where
  demands : st.Demands c f.ts
  since : Since (fun _ st _ => st.awake f.ts = true) (RequestedBy f.ts c) h

/-- The request goes on standing until the sleepers have left, by cases on the step of its call or
its callback.
-/
theorem demands_of_step (demands : st.Demands c s) (ok : WellTimed h st e)
    (step : st.step e = some st') (slept : SleptThrough h c r)
    (calls : (st.thread r.1).calls = r.2) (waits : (st.thread r.1).frame.waits = true)
    : st'.Demands c s := by
  have early : ¬ st.TakesBack c e := fun back =>
    absurd (waits.symm.trans (ok.2.2.1 c back r slept calls)) (by decide)
  cases demands with
  | @call g asks =>
      obtain ⟨thread, pc, service⟩ := asks
      cases turn_of_step step c.1 with
      | rest other same => exact .call ⟨same.trans thread, pc, service⟩
      | enter event idle same =>
          rw [thread] at idle
          cases idle
      | @go external frame event exec same =>
          subst event
          rcases pc with wakeUp | callRcu | reset
          · rw [State.op, thread] at exec
            have move := ctlMove_of_exec exec
            rw [thread] at same
            obtain ⟨tag, command, euid, ts, index, awakened, point⟩ := g
            obtain rfl : point = .wakeUp := wakeUp
            change CtlMove st.kernel _ .wakeUp frame at move
            cases move with
            | wakeUp => exact .call ⟨same, .inr (.inl rfl), service⟩
            | wakeUpNobody => exact .call ⟨same, .inr (.inr rfl), service⟩
          · refine .callback ?_
            obtain ⟨tag, command, euid, ts, index, awakened, point⟩ := g
            obtain rfl : point = .callRcu := callRcu
            subst service
            cases State.steps_of_step step with
            | run exec =>
                have after := Kernel.exec_callbacks exec
                simp only [State.op, thread] at after
                exact after ▸ List.mem_append_right _ (List.mem_singleton_self _)
          · exact absurd (.call thread reset) early
  | callback member =>
      refine .callback ?_
      cases State.steps_of_step step with
      | run exec =>
          have after := Kernel.exec_callbacks exec
          exact after ▸ List.mem_append_left _ member
      | @softirq n b k next ready exec =>
          have member : _ ∈ k.rcu.callbacks := rcu_of_softirq exec ▸ member
          refine Rcu.mem_callbacks_of_advance _ (rcu_of_softirq exec ▸ ready) member fun same => ?_
          exact early (.callback ready (by rw [← same]) (by rw [← same]) (by rw [← same]))
      | _ => exact member

/-- Before the wait, or at its first test. -/
def ReceivePc.early : ReceivePc → Bool
  | .entry | .load | .lazyDeleted | .permission | .incCount | .incLevel | .entered _ | .firstReady
  | .firstAwake => true
  | _ => false

/-- A thread that slept when a request came is asked as long as it waits, by induction on the
run.
-/
theorem asked_run (run : (machine τ).Run WellTimed h st) (slept : SleptThrough h c r)
    (calls : (st.thread r.1).calls = r.2)
    : ∀ {f},
        (st.thread r.1).frame = .receive f
        → f.pc.early = false ∧ (f.pc.waits = true → f.Asked h st c) := by
  induction run with
  | start => exact absurd slept not_once_nil
  | @next h st e st' before ok step ih =>
      have step : st.step e = some st' := step
      have x := Unheld.safe (WellTimed.unheld before)
      intro f' after
      cases slept with
      | here now =>
          obtain ⟨g, l, requests, -, asleep⟩ := now
          obtain ⟨f, here, pc, tag, -⟩ := Frame.eq_receive_of_asleepOn asleep
          obtain ⟨asks, others⟩ := requests_of_step requests step
          have apart : r.1 ≠ c.1 := by
            intro twice
            rw [twice, requests.thread] at here
            cases here
          rw [others r.1 apart, here] at after
          obtain rfl := Frame.receive.inj after
          have ts : f.ts = g.ts := by
            have registered : (st.thread r.1).frame.registered = some f.ts := by
              rw [here]
              simp only [Frame.registered, pc]
            have slot := slot_of_registered (WellTimed.unheld before) (WellTimed.timely before)
              here registered
            rw [tag] at slot
            exact Option.some.inj (slot.symm.trans (requests.live x))
          refine ⟨by rw [pc]; rfl, fun _ => ⟨.call (ts ▸ asks), .here ⟨g, ts ▸ requests⟩⟩⟩
      | later earlier =>
          have still : (st.thread r.1).calls = r.2 := by
            refine calls_of_once before step calls (Once.mono (fun _ _ _ now => ?_) earlier)
            obtain ⟨g, l, -, calls, -⟩ := now
            exact calls
          have carry {f : ReceiveFrame} (here : (st.thread r.1).frame = .receive f)
              (waits : f.pc.waits = true) (ts : f'.ts = f.ts)
              : f'.Asked ((st, e) :: h) st' c := by
            obtain ⟨demands, since⟩ := (ih earlier still here).2 waits
            rw [← ts] at demands since
            exact ⟨demands_of_step demands ok step earlier still (by rw [here]; exact waits),
              since.later (demands.awake x)⟩
          cases receiveTurn_of_step step after with
          | rest other same =>
              rw [same] at after
              exact ⟨(ih earlier still after).1, fun waits => carry after waits rfl⟩
          | enter more _ =>
              rw [calls, ← still] at more
              exact absurd more (Nat.ne_of_lt (Nat.lt_succ_self _))
          | @move external f pc frame event here _ point move target =>
              obtain rfl := point
              subst target
              have late := (ih earlier still here).1
              have carry := carry here
              obtain ⟨tag, level, buffer, size, euid, ts, realSize, interrupted, copied, pc⟩ := f
              cases pc
              case prepare => cases move; exact ⟨rfl, fun _ => carry rfl rfl⟩
              case testReady =>
                cases move with
                | testReady => exact ⟨rfl, fun waits => by cases waits⟩
                | testNotReady => exact ⟨rfl, fun _ => carry rfl rfl⟩
              case testAwake =>
                cases move with
                | testAwake => exact ⟨rfl, fun waits => by cases waits⟩
                | testInterrupted => exact ⟨rfl, fun waits => by cases waits⟩
                | fallAsleep => exact ⟨rfl, fun _ => carry rfl rfl⟩
              case sleep => cases move; exact ⟨rfl, fun _ => carry rfl rfl⟩
              all_goals
                cases move <;> first
                | cases late; done
                | exact ⟨rfl, fun waits => by cases waits⟩

-----------------------------------------------------------------------------------------
-- The way out
-----------------------------------------------------------------------------------------

/-- A thread that slept when a request came does not fall asleep again. -/
theorem thread_of_asleep (run : (machine τ).Run WellTimed h st) (slept : SleptThrough h c r)
    (calls : (st.thread r.1).calls = r.2) (step : st.step e = some st') {f' : ReceiveFrame}
    (after : (st'.thread r.1).frame = .receive f') (asleep : f'.pc = .sleep)
    : st'.thread r.1 = st.thread r.1 := by
  cases receiveTurn_of_step step after with
  | rest _ same => exact same
  | enter more entered =>
      rename_i euid call
      cases call <;> cases entered
      cases asleep
  | @move external f pc frame event here _ point move target =>
      obtain rfl := point
      subst target
      have asked := asked_run run slept calls here
      obtain ⟨tag, level, buffer, size, euid, ts, realSize, interrupted, copied, pc⟩ := f
      cases move with
      | fallAsleep unset =>
          have x := Unheld.safe (WellTimed.unheld run)
          have awake : st.awake ts = true := (asked.2 rfl).demands.awake x
          exact absurd (awake.symm.trans unset) (by decide)
      | _ => cases asleep

/-- As long as it waits, its next step takes it closer to its way out, by cases on the move. -/
theorem stepsToLeave_of_step {external : Nat} (run : (machine τ).Run WellTimed h st)
    (slept : SleptThrough h c r) (calls : (st.thread r.1).calls = r.2)
    (waits : (st.thread r.1).frame.waits = true) (step : st.step (.run r.1 external) = some st')
    : (st'.thread r.1).frame.stepsToLeave < (st.thread r.1).frame.stepsToLeave := by
  cases turn_of_step step r.1 with
  | rest other => exact absurd rfl (other external)
  | enter event => cases event
  | @go external frame event exec thread =>
      cases here : (st.thread r.1).frame with
      | receive f =>
          have asked := asked_run run slept calls here
          rw [here] at waits
          rw [State.op, here] at exec
          rw [thread]
          have move := receiveMove_of_exec exec
          obtain ⟨tag, level, buffer, size, euid, ts, realSize, interrupted, copied, pc⟩ := f
          cases move with
          | fallAsleep unset =>
              have x := Unheld.safe (WellTimed.unheld run)
              have awake : st.awake ts = true := (asked.2 rfl).demands.awake x
              exact absurd (awake.symm.trans unset) (by decide)
          | _ => first | (cases waits; done) | exact Nat.le_of_ble_eq_true rfl
      | _ => rw [here] at waits; cases waits

omit [DecidableEq τ] in
theorem Frame.stepsToLeave_le (frame : Frame) : frame.stepsToLeave ≤ 4 := by
  cases frame with
  | receive f =>
      obtain ⟨_, _, _, _, _, _, _, _, _, pc⟩ := f
      cases pc <;> exact Nat.le_of_ble_eq_true rfl
  | _ => exact Nat.zero_le _

omit [DecidableEq τ] in
theorem Frame.stepsToLeave_pos {frame : Frame} (waits : frame.waits = true)
    : 0 < frame.stepsToLeave := by
  cases frame with
  | receive f =>
      obtain ⟨_, _, _, _, _, _, _, _, _, pc⟩ := f
      cases pc <;> first | (cases waits; done) | exact Nat.le_of_ble_eq_true rfl
  | _ => cases waits

/-- A thread that slept when a request came, and waits, has waited since. -/
theorem waited_of_step (run : (machine τ).Run WellTimed h st) (slept : SleptThrough h c r)
    (calls : (st.thread r.1).calls = r.2) (step : st.step e = some st')
    (waits : (st'.thread r.1).frame.waits = true)
    : (st.thread r.1).frame.waits = true := by
  cases after : (st'.thread r.1).frame with
  | receive f' =>
      rw [after] at waits
      cases receiveTurn_of_step step after with
      | rest _ same =>
          rw [← same, after]
          exact waits
      | enter more entered =>
          rename_i euid call
          cases call <;> cases entered
          cases waits
      | @move external f pc frame event here _ point move target =>
          obtain rfl := point
          subst target
          have late := (asked_run run slept calls here).1
          rw [here]
          obtain ⟨tag, level, buffer, size, euid, ts, realSize, interrupted, copied, pc⟩ := f
          cases move <;> first | rfl | (cases waits; done) | cases late
  | _ => rw [after] at waits; cases waits

/-- The steps that a thread has made since a request found it asleep, and those that it has left in
its wait, are at most four, by induction on the run.
-/
theorem leaves_run (run : (machine τ).Run WellTimed h st) {newer older : History (State τ) (Event τ)}
    {st₀ : State τ} {e₀ : Event τ} (split : h = newer ++ (st₀, e₀) :: older)
    (asleep : FindsAsleep c r older st₀ e₀) (calls : (st.thread r.1).calls = r.2)
    (waits : (st.thread r.1).frame.waits = true)
    : stepsMade newer r.1 r.2 + (st.thread r.1).frame.stepsToLeave ≤ 4 := by
  induction run generalizing newer with
  | start => cases newer <;> cases split
  | @next h st e st' before ok step ih =>
      have step : st.step e = some st' := step
      cases newer with
      | nil =>
          have none_ : stepsMade ([] : History (State τ) (Event τ)) r.1 r.2 = 0 := rfl
          rw [none_, Nat.zero_add]
          exact Frame.stepsToLeave_le _
      | cons moment newer =>
          obtain ⟨rfl, rfl⟩ := List.cons.inj split
          have slept : SleptThrough (newer ++ (st₀, e₀) :: older) c r :=
            once_of_mem (List.mem_append_right _ (List.mem_cons_self ..)) asleep
          have still : (st.thread r.1).calls = r.2 := by
            refine calls_of_once before step calls (Once.mono (fun _ _ _ now => ?_) slept)
            obtain ⟨g, l, -, calls, -⟩ := now
            exact calls
          have earlier := ih rfl still (waited_of_step before slept still step waits)
          rw [stepsMade, tally_cons]
          change stepsMade newer r.1 r.2 + _ + _ ≤ 4
          cases turn_of_step step r.1 with
          | rest other thread =>
              have runner : (e.runner == some r.1) = false := by
                cases e with
                | run u external =>
                    refine beq_eq_false_iff_ne.mpr fun same => ?_
                    exact other external (by rw [show u = r.1 from Option.some.inj same])
                | _ => rfl
              rw [runner, thread]
              exact earlier
          | enter _ _ thread =>
              have more : (st.thread r.1).calls + 1 = r.2 := by
                rw [thread] at calls
                exact calls
              omega
          | go event =>
              subst event
              have less := stepsToLeave_of_step before slept still
                (waited_of_step before slept still step waits) step
              split <;> omega

/-- A thread enters the queue by a step of its own. -/
theorem mem_queue_of_step {t : τ} (step : st.step e = some st')
    (queued : t ∈ st'.kernel.theQueue)
    : t ∈ st.kernel.theQueue ∨ ∃ external, e = .run t external := by
  cases State.steps_of_step step with
  | @run u external k frame exec =>
      have queue := (Kernel.exec_performs exec).queue
      have own := fun v => op_thread (u, (st.thread u).calls) (st.thread u).frame (u := v)
      change t ∈ k.theQueue at queued
      rw [queue, State.op] at queued
      generalize (st.thread u).frame.op (u, (st.thread u).calls) = op at own queued
      cases op
      case wakeUpAll => cases queued
      case finishWait => exact .inl (List.mem_of_mem_erase queued)
      case prepareToWait v next =>
        obtain rfl := own v rfl
        simp only [Op.onQueue] at queued
        split at queued
        · exact .inl (List.mem_of_mem_erase queued)
        · split at queued
          · exact .inl queued
          · rcases List.mem_cons.mp queued with rfl | earlier
            · exact .inr ⟨external, rfl⟩
            · exact .inl earlier
      all_goals exact .inl queued
  | @softirq n b k next ready exec =>
      have queue := (Kernel.exec_performs exec).queue
      change t ∈ k.theQueue at queued
      obtain ⟨job, s, stage, caller⟩ := b
      rw [queue] at queued
      cases job <;> cases stage <;> exact .inl queued
  | _ => exact .inl queued

/-- A wake-up empties the queue. -/
theorem queue_of_wakes (wakes : Wakes c h st e) (step : st.step e = some st')
    : st'.kernel.theQueue = [] := by
  obtain ⟨⟨external, rfl⟩, g, thread, pc⟩ := wakes
  cases State.steps_of_step step with
  | @run _ _ k frame exec =>
      have queue := (Kernel.exec_performs exec).queue
      show k.theQueue = []
      simpa only [State.op, thread, Frame.op, tagCtl, pc, Op.onQueue] using queue

/-- A thread that has been woken for a request is not on the queue while it is still asleep, by
induction on the run.
-/
theorem unqueued_run (run : (machine τ).Run WellTimed h st) (woken : Woken h c r)
    (calls : (st.thread r.1).calls = r.2) {f : ReceiveFrame}
    (here : (st.thread r.1).frame = .receive f) (asleep : f.pc = .sleep)
    : r.1 ∉ st.kernel.theQueue := by
  induction run generalizing f with
  | start => exact absurd woken not_once_nil
  | @next h st e st' before ok step ih =>
      have step : st.step e = some st' := step
      intro queued
      cases woken with
      | here now =>
          rw [queue_of_wakes now.2 step] at queued
          cases queued
      | later earlier =>
          have slept : SleptThrough h c r := Once.join (Once.mono (fun _ _ _ both => both.1) earlier)
          have still : (st.thread r.1).calls = r.2 := by
            refine calls_of_once before step calls (Once.mono (fun _ _ _ now => ?_) slept)
            obtain ⟨g, l, -, calls, -⟩ := now
            exact calls
          have same := thread_of_asleep before slept still step here asleep
          rw [same] at here
          rcases mem_queue_of_step step queued with already | ⟨external, event⟩
          · exact ih earlier still here asleep already
          · subst event
            have waits : (st.thread r.1).frame.waits = true := by
              rw [here]
              simp only [Frame.waits, asleep, ReceivePc.waits]
            have less := stepsToLeave_of_step before slept still waits step
            rw [same] at less
            exact absurd less (Nat.lt_irrefl _)

/-- Nothing holds up a thread that has been woken, as long as it waits. -/
theorem canGoOn_of_woken (run : (machine τ).Run WellTimed h st) (woken : Woken h c r)
    (calls : (st.thread r.1).calls = r.2) (waits : (st.thread r.1).frame.waits = true)
    : st.CanGoOn r.1 := by
  refine (canGoOn_or_standing st r.1).resolve_right fun standing => ?_
  cases here : (st.thread r.1).frame with
  | receive f =>
      rw [here] at waits standing
      cases standing with
      | returned idle => cases idle
      | asleep same pc keeps =>
          obtain rfl := Frame.receive.inj same
          exact unqueued_run run woken calls here pc keeps.1
      | accessLock locks held | deviceLock locks held | oopsed stray =>
          obtain ⟨tag, level, buffer, size, euid, ts, realSize, interrupted, copied, pc⟩ := f
          cases pc <;> first | (cases waits; done) | cases locks | cases stray
  | _ => rw [here] at waits; cases waits

-----------------------------------------------------------------------------------------
-- Late comers
-----------------------------------------------------------------------------------------

/-- A receiver whose wait began after the return of an `AWAKE_ALL` does not find its request
standing, by induction on the run.
-/
theorem unasked_run (run : (machine τ).Run WellTimed h st)
    (began : Once (fun past st e => Begins s r past st e ∧ st.Returned c) h)
    (awake : st.awake s = true) (asked : Since (NoRequest s) (RequestedBy s c) h)
    (calls : (st.thread r.1).calls = r.2) {f : ReceiveFrame}
    (here : (st.thread r.1).frame = .receive f)
    (waits : f.pc.waits = true ∨ f.pc = .firstAwake) (service : f.ts = s)
    : False := by
  induction run generalizing f with
  | start => exact not_once_nil began
  | @next h st e st' before ok step ih =>
      have step : st.step e = some st' := step
      have held : s ∈ (st'.thread r.1).frame.pointers := by
        obtain ⟨tag, level, buffer, size, euid, ts, realSize, interrupted, copied, pc⟩ := f
        rw [here, ← service]
        rcases waits with waits | rfl
        · cases pc <;> first | exact List.mem_singleton_self _ | cases waits
        · exact List.mem_singleton_self _
      have unheld := (WellTimed.unheld before).next (G := Unheld) ok.1 step
      have kept : e.reuses ≠ some s := intact_of_held unheld held _ (List.mem_cons_self ..)
      have returned (earlier : Once (fun past st e => Begins s r past st e ∧ st.Returned c) h)
          : st.Returned c :=
        returned_run before (Once.mono (fun _ _ _ both => both.2) earlier)
      cases asked with
      | here now =>
          obtain ⟨g, requests⟩ := now
          cases began with
          | here now' =>
              obtain ⟨⟨⟨external, event⟩, -, f, receives, -⟩, -⟩ := now'
              obtain ⟨external', event'⟩ := requests.event
              obtain ⟨twice, -⟩ := Event.run.inj (event.symm.trans event')
              rw [twice, requests.thread] at receives
              cases receives
          | later earlier =>
              have over_ := returned earlier
              simp [State.Returned, requests.thread, Frame.idle] at over_
      | later asked silent =>
          have already : st.awake s = true := by
            rcases awake_of_step step kept (pointers_born unheld r.1 s held) awake with
              ⟨already, -⟩ | writes
            · exact already
            · obtain ⟨c', g', requests⟩ := requests_of_writes writes
              exact absurd requests (silent c' g')
          have alone := ok.2.2.2
          cases began with
          | here now => exact alone r s now.1 already c asked now.2
          | later earlier =>
              have still : (st.thread r.1).calls = r.2 := by
                refine calls_of_once before step calls (Once.mono (fun _ _ _ now => ?_) earlier)
                exact now.1.2.1
              cases receiveTurn_of_step step here with
              | rest other same =>
                  rw [same] at here
                  exact ih earlier already asked still here waits service
              | enter more _ =>
                  rw [calls, ← still] at more
                  exact absurd more (Nat.ne_of_lt (Nat.lt_succ_self _))
              | @move external g pc frame event origin _ point move target =>
                  obtain rfl := point
                  subst target
                  have again (waits' : g.pc.waits = true ∨ g.pc = .firstAwake) (same : g.ts = f.ts)
                      : False :=
                    ih earlier already asked still origin waits' (same.trans service)
                  have begins (first_ : g.pc = .firstReady) (same : g.ts = f.ts) : False :=
                    alone r s ⟨⟨external, event⟩, still, g, origin, first_, same.trans service⟩
                      already c asked (returned earlier)
                  obtain ⟨tag, level, buffer, size, euid, ts, realSize, interrupted, copied, pc⟩ := g
                  cases move with
                  | firstNotReady => exact begins rfl rfl
                  | firstNotAwake => exact again (.inr rfl) rfl
                  | prepare => exact again (.inl rfl) rfl
                  | testNotReady => exact again (.inl rfl) rfl
                  | fallAsleep => exact again (.inl rfl) rfl
                  | wake => exact again (.inl rfl) rfl
                  | _ => rcases waits with waits | waits <;> cases waits

-----------------------------------------------------------------------------------------
-- The law
-----------------------------------------------------------------------------------------

/-- Exactly the threads that waited are awoken. -/
structure AwakesAll (h : History (State τ) (Event τ)) (st : State τ) : Prop where
  /-- As long as a thread waits that slept when the request was made, the request stands. -/
  sleepers
    : ∀ c r f,
        SleptThrough h c r
        → (st.thread r.1).calls = r.2
        → (st.thread r.1).frame = .receive f
        → f.pc.waits = true
        → st.awake f.ts = true
          ∧ Since (fun _ st _ => st.awake f.ts = true) (RequestedBy f.ts c) h
  /-- From the wake-up of the call on, nothing holds the thread up as long as it waits. -/
  woken
    : ∀ c r,
        Woken h c r
        → (st.thread r.1).calls = r.2
        → (st.thread r.1).frame.waits = true
        → st.CanGoOn r.1
  /-- Each of its steps takes it closer to its way out, which is at most four of them away. -/
  leaves
    : ∀ c r external st',
        SleptThrough h c r
        → (st.thread r.1).calls = r.2
        → (st.thread r.1).frame.waits = true
        → st.step (.run r.1 external) = some st'
        → (st'.thread r.1).frame.stepsToLeave < (st.thread r.1).frame.stepsToLeave
  /-- As long as it waits it has made fewer than four steps since. -/
  soon
    : ∀ c r newer st₀ e₀ older,
        h = newer ++ (st₀, e₀) :: older
        → FindsAsleep c r older st₀ e₀
        → (st.thread r.1).calls = r.2
        → (st.thread r.1).frame.waits = true
        → stepsMade newer r.1 r.2 < 4
  /-- No step takes it back to sleep. -/
  neverAgain
    : ∀ c r e st' i l,
        SleptThrough h c r
        → (st.thread r.1).calls = r.2
        → st.step e = some st'
        → (st'.thread r.1).frame.asleepOn = some (i, l)
        → (st.thread r.1).frame.asleepOn = some (i, l)
  /-- A wait that began after the call returned is not ended by its request. -/
  lateComer
    : ∀ c r s,
        ¬ Once (fun past st e =>
            EndsAwake s r past st e
            ∧ Since (NoRequest s) (RequestedBy s c) past
            ∧ Once (fun past st e => Begins s r past st e ∧ st.Returned c) past) h

/-- In every run in which requests stand long enough and not too long, exactly the threads that
waited are awoken.
-/
theorem awakes_all (run : (machine τ).Run WellTimed h st) : AwakesAll h st where
  sleepers c r f slept calls here waits := by
    obtain ⟨demands, since⟩ := (asked_run run slept calls here).2 waits
    exact ⟨demands.awake (Unheld.safe (WellTimed.unheld run)), since⟩
  woken c r woken calls waits := canGoOn_of_woken run woken calls waits
  leaves c r external st' slept calls waits step := stepsToLeave_of_step run slept calls waits step
  soon c r newer st₀ e₀ older split asleep calls waits :=
    Nat.lt_of_lt_of_le (Nat.lt_add_of_pos_right (Frame.stepsToLeave_pos waits))
      (leaves_run run split asleep calls waits)
  neverAgain c r e st' i l slept calls step asleep := by
    obtain ⟨f', after, pc', -, -⟩ := Frame.eq_receive_of_asleepOn asleep
    rw [← thread_of_asleep run slept calls step after pc', asleep]
  lateComer c r s ended := by
    have never : Once (fun _ _ _ => False) h :=
      Once.strengthen run (fun before _ now => by
        obtain ⟨⟨-, calls, awake, f, here, pc, service⟩, asked, began⟩ := now
        refine unasked_run before began awake asked calls here ?_ service
        rcases pc with pc | pc
        · exact .inr pc
        · exact .inl (by rw [pc]; rfl)) ended
    obtain ⟨m, st₁, e₁, -, past⟩ := never.moment
    exact past

/-- A `tag_ctl` that is about to take its request back. -/
def Frame.resets : Frame → Bool
  | ctl g =>
      match g.pc with
      | .reset => true
      | _ => false
  | _ => false

/-- A request is taken back in this event. -/
def State.resets (st : State τ) : Event τ → Bool
  | .run t _ => (st.thread t).frame.resets
  | .softirq n =>
      (st.kernel.rcu.ready? n).any fun b => b.job == .resetAwakeCondition && b.stage == .clear
  | _ => false

omit [DecidableEq τ] in
theorem State.TakesBack.resets (back : st.TakesBack c e) : st.resets e = true := by
  cases back with
  | call thread pc => simp only [State.resets, thread, Frame.resets, pc]
  | callback ready job stage => simp [State.resets, ready, job, stage]

/-- The service on which a receiver is about to begin its wait. -/
def Frame.begins : Frame → Option Ref
  | receive f =>
      match f.pc with
      | .firstReady => some f.ts
      | _ => none
  | _ => none

/-- The tag for which a call is about to set `awake_request`. -/
def Frame.requesting : Frame → Option Int
  | ctl g =>
      match g.pc with
      | .request => some g.tag
      | _ => none
  | _ => none

/-- The same condition, for memory that is never given out again, where nobody waits when a
request is taken back, and no request stands when a wait begins.
-/
def WellTimedFresh : Guard (State τ) (Event τ) :=
  fun h st e =>
    NoReuse e
    ∧ RegistersInTime h st e
    ∧ (st.resets e = true → ∀ u, (st.thread u).frame.waits = false)
    ∧ ∀ t,
        e.runner = some t → ∀ s ∈ (st.thread t).frame.begins, st.awake s = false

instance [Fintype τ] (h : History (State τ) (Event τ)) (st : State τ) (e : Event τ)
    : Decidable (WellTimedFresh h st e) :=
  inferInstanceAs (Decidable (_ ∧ _ ∧ _ ∧ _))

theorem WellTimedFresh.wellTimed (run : (machine τ).Run WellTimedFresh h st)
    : (machine τ).Run WellTimed h st := by
  refine run.mono fun h st e ok =>
    ⟨by cases e <;> first | exact ok.1.elim | trivial, ok.2.1, ?_, ?_⟩
  · exact fun c back r _ _ => ok.2.2.1 back.resets r.1
  · rintro r s ⟨⟨external, rfl⟩, -, f, here, pc, service⟩ awake
    have unset := ok.2.2.2 r.1 rfl s (by rw [here]; simp only [Frame.begins, pc, service]; rfl)
    exact absurd (awake.symm.trans unset) (by decide)

/-- The test that a replay has come to a thread `u` that slept when the thread `t` made its
request.
-/
def sleptThroughTest (t u : Fin 2) (h : History (State (Fin 2)) (Event (Fin 2)))
    (st : State (Fin 2))
    : Bool :=
  h.any fun moment =>
    moment.2.runner == some t
    && (moment.1.thread t).frame.requesting == some 1
    && (moment.1.thread u).frame.asleepOn == some (1, 3)
    && (moment.1.thread u).calls == (st.thread u).calls

theorem slept_of_sleptThroughTest {h : History (State (Fin 2)) (Event (Fin 2))}
    {st : State (Fin 2)} {t u : Fin 2} (passes : sleptThroughTest t u h st = true)
    : ∃ n, SleptThrough h (t, n) (u, (st.thread u).calls) := by
  obtain ⟨⟨st₁, e₁⟩, member, facts⟩ := List.any_eq_true.mp passes
  simp only [Bool.and_eq_true, beq_iff_eq] at facts
  obtain ⟨⟨⟨event, requesting⟩, asleep⟩, calls⟩ := facts
  refine ⟨(st₁.thread t).calls, once_of_mem member ?_⟩
  cases e₁ with
  | run v external =>
      obtain rfl := (Option.some.inj event).symm
      cases here : (st₁.thread t).frame with
      | ctl g =>
          rw [here] at requesting
          obtain ⟨tag, command, euid, ts, index, awakened, pc⟩ := g
          cases pc <;> cases requesting
          exact ⟨_, 3, ⟨⟨external, rfl⟩, congrArg (Thread.mk _) here, rfl, rfl⟩, calls, asleep⟩
      | _ => rw [here] at requesting; cases requesting
  | _ => cases event

/-- A sleeper that an `AWAKE_ALL` has woken finds the request standing at its next test. -/
theorem awakes_all_of_sleeper
    : ∃ h st f n,
        (machine (Fin 2)).Run WellTimed h st
        ∧ AwakesAll h st
        ∧ SleptThrough h (0, n) (1, (st.thread 1).calls)
        ∧ ((st.thread 1).frame = .receive f ∧ f.pc = .testAwake)
        ∧ st.awake f.ts = true := by
  obtain ⟨h, st, run, facts⟩ := Machine.Run.exists_of_replay
    (M := machine (Fin 2)) (G := WellTimedFresh)
    (creating 0 1 ++ fallingAsleep 1 1 3 ++ awaking 0 1 9 ++ runs 1 3)
    (fun h st => sleptThroughTest 0 1 h st && (st.thread 1).frame.retests)
    (by decide +kernel)
  simp only [Bool.and_eq_true] at facts
  obtain ⟨slept, retests⟩ := facts
  obtain ⟨n, slept⟩ := slept_of_sleptThroughTest slept
  obtain ⟨f, here, pc⟩ := Frame.eq_receive_of_retests retests
  have run := WellTimedFresh.wellTimed run
  have law := awakes_all run
  exact ⟨h, st, f, n, run, law, slept, ⟨here, pc⟩,
    (law.sleepers _ _ f slept rfl here (by rw [pc]; rfl)).1⟩

/-- Without the condition an `AWAKE_ALL` awakes nobody: its callback runs before the thread that
it has woken tests its condition again.
-/
theorem awakes_nobody
    : ¬ ∀ (h : History (State (Fin 2)) (Event (Fin 2))) (st : State (Fin 2)),
        (machine (Fin 2)).Run anyStep h st → AwakesAll h st := by
  intro always
  obtain ⟨h, st, run, facts⟩ := Machine.Run.exists_of_replay
    (M := machine (Fin 2)) (G := anyStep)
    (creating 0 1 ++ fallingAsleep 1 1 3 ++ awaking 0 1 11 ++ [.softirq 0] ++ runs 1 3)
    (fun h st => sleptThroughTest 0 1 h st && (st.thread 1).frame.retests && st.awake 0 == false
      && (st.thread 1).frame.registered == some 0)
    (by decide +kernel)
  simp only [Bool.and_eq_true, beq_iff_eq] at facts
  obtain ⟨⟨⟨slept, retests⟩, unset⟩, registered⟩ := facts
  obtain ⟨n, slept⟩ := slept_of_sleptThroughTest slept
  obtain ⟨f, here, pc⟩ := Frame.eq_receive_of_retests retests
  have awake := ((always h st run).sleepers _ _ f slept rfl here (by rw [pc]; rfl)).1
  have service : f.ts = 0 := by
    rw [here] at registered
    simpa only [Frame.registered, pc, Option.some.injEq] using registered
  rw [service, unset] at awake
  cases awake

end TagExchange
