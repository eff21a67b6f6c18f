import TagExchange.Concurrency.Runs
import TagExchange.Model.TagGet
import TagExchange.Model.TagSend
import TagExchange.Model.TagReceive
import TagExchange.Model.TagCtl

/-! The whole system: any number of threads in system calls, the RCU callbacks, signals,
and the allocator giving freed memory to somebody else. An event is one atomic step.
-/

namespace TagExchange

open Concurrency

variable {τ : Type}

/-- The two RCU callbacks, `free_after_send` and `reset_awake_condition`. -/
def Callback.op (b : Callback τ) : Op τ (Option (Callback τ)) :=
  match b.job, b.stage with
  | .freeAfterSend l, .clear =>
      .store b.service (.messageReady l false) (some { b with stage := .zero })
  | .freeAfterSend l, .zero => .store b.service (.memset l) (some { b with stage := .tag })
  | .freeAfterSend l, .tag =>
      .loadLevel b.service l fun v => some { b with stage := .unlock v.tag }
  | .resetAwakeCondition, .clear =>
      .store b.service (.awakeRequest false) (some { b with stage := .tag })
  | .resetAwakeCondition, .zero => .nop (some { b with stage := .tag })
  | .resetAwakeCondition, .tag =>
      .load b.service fun ts => some { b with stage := .unlock ts.tag }
  | _, .unlock i => .mutexUnlock i (some { b with stage := .print })
  -- The message of `free_after_send` shows `level_to_free->message_ready`.
  | .freeAfterSend l, .print => .loadLevel b.service l fun _ => none
  | .resetAwakeCondition, .print => .nop none

-----------------------------------------------------------------------------------------
-- Threads and states
-----------------------------------------------------------------------------------------

inductive Syscall
  | tagGet (key command permission : Int)
  | tagSend (tag level : Int) (buffer : List UInt8) (size : Nat)
  | tagReceive (tag level : Int) (buffer : Bool) (size : Nat)
  | tagCtl (tag command : Int)

/-- The frame of a call that a thread with this effective user enters. -/
def Syscall.enter (euid : Int) : Syscall → Frame
  | tagGet key command permission =>
      .get {
        key, command, permission, euid
        tag := 0
        ts := 0
        pc := .entry
      }
  | tagSend tag level buffer size =>
      .send {
        tag, level, buffer, size, euid
        realSize := 0
        stored := 0
        ts := 0
        pc := .entry
      }
  | tagReceive tag level buffer size =>
      .receive {
        tag, level, buffer, size, euid
        ts := 0
        realSize := 0
        interrupted := false
        copied := []
        pc := .entry
      }
  | tagCtl tag command =>
      .ctl {
        tag, command, euid
        ts := 0
        index := tag
        awakened := 0
        pc := .entry
      }

/-- The next operation of a thread in the call `c`. -/
def Frame.op (c : CallId τ) : Frame → Op τ Frame
  | user _ => .oops
  | get f => tagGet c.1 f
  | send f => tagSend c f
  | receive f => tagReceive c.1 f
  | ctl f => tagCtl c f

/-- The number of calls a thread has entered so far, and where it is. -/
structure Thread where
  calls : Nat
  frame : Frame

structure State (τ : Type) where
  kernel : Kernel τ
  thread : τ → Thread

inductive Event (τ : Type)
  | call (t : τ) (euid : Int) (c : Syscall)
  | run (t : τ) (external : Nat)
  | softirq (n : Nat)
  | signal (t : τ)
  | reuse (s : Ref) (ts : TagService)

/-- The state `start` leaves: an empty registry, all mutexes free. -/
def State.start : State τ where
  kernel := {
    tsm := {
      firstFreeEntry := 0
      remainingEntries := MAX_TAG_SERVICES.toNat
      accessLock := fun _ => false
      allTagServices := fun _ => none
    }
    service := fun _ => TagService.created 0 0 0 0
    freed := fun _ => false
    services := 0
    dm := {
      deviceLock := fun _ => false
      content := fun _ => none
      buffer := fun _ => ⟨none, false⟩
      buffers := 0
    }
    theQueue := []
    rcu := ⟨[], []⟩
    signalled := fun _ => false
    moduleRefs := 0
    pages := 0
  }
  thread := fun _ => ⟨0, .user none⟩

namespace State

variable [DecidableEq τ]

def setThread (st : State τ) (t : τ) (th : Thread) : State τ :=
  { st with thread := Function.update st.thread t th }

theorem setThread_frame (st : State τ) (t u : τ) (th : Thread)
    : ((st.setThread t th).thread u).frame
      = if u = t then th.frame else (st.thread u).frame := by
  rcases eq_or_ne u t with rfl | other
  · simp [setThread]
  · simp [setThread, other]

/-- The next operation of a thread. -/
def op (st : State τ) (t : τ) : Op τ Frame :=
  (st.thread t).frame.op (t, (st.thread t).calls)

def step (st : State τ) : Event τ → Option (State τ)
  | .call t euid c =>
      match (st.thread t).frame with
      | .user _ => some (st.setThread t ⟨(st.thread t).calls + 1, c.enter euid⟩)
      | _ => none
  | .run t external =>
      match st.kernel.exec external (st.op t) with
      | some (k, frame) =>
          some ({ st with kernel := k }.setThread t ⟨(st.thread t).calls, frame⟩)
      | none => none
  | .softirq n =>
      match st.kernel.rcu.ready? n with
      | some b =>
          match st.kernel.exec 0 b.op with
          | some (k, next) => some { st with kernel := { k with rcu := k.rcu.advance n next } }
          | none => none
      | none => none
  | .signal t =>
      match (st.thread t).frame with
      | .user _ => none
      | _ =>
          some { st with kernel :=
            { st.kernel with signalled := Function.update st.kernel.signalled t true } }
  | .reuse s ts =>
      if st.kernel.freed s then
        some { st with kernel :=
          { st.kernel with service := Function.update st.kernel.service s ts } }
      else
        none

/-- What an event can do, one constructor for each kind of event. -/
inductive Steps (st : State τ) : Event τ → State τ → Prop
  | call {t euid c last} (user : (st.thread t).frame = .user last)
    : Steps st (.call t euid c) (st.setThread t ⟨(st.thread t).calls + 1, c.enter euid⟩)
  | run {t external k frame} (exec : st.kernel.exec external (st.op t) = some (k, frame))
    : Steps st (.run t external)
        ({ st with kernel := k }.setThread t ⟨(st.thread t).calls, frame⟩)
  | softirq {n b k next} (ready : st.kernel.rcu.ready? n = some b)
    (exec : st.kernel.exec 0 b.op = some (k, next))
    : Steps st (.softirq n) { st with kernel := { k with rcu := k.rcu.advance n next } }
  | signal {t} (busy : ∀ last, (st.thread t).frame ≠ .user last)
    : Steps st (.signal t)
        { st with kernel :=
          { st.kernel with signalled := Function.update st.kernel.signalled t true } }
  | reuse {s ts} (freed : st.kernel.freed s = true)
    : Steps st (.reuse s ts)
        { st with kernel :=
          { st.kernel with service := Function.update st.kernel.service s ts } }

theorem steps_of_step {st st' : State τ} {e : Event τ} (step : st.step e = some st')
    : st.Steps e st' := by
  cases e with
  | call t euid c =>
      simp only [State.step] at step
      split at step
      · next last user =>
          obtain rfl := Option.some.inj step
          exact .call user
      · cases step
  | run t external =>
      simp only [State.step] at step
      split at step
      · next k frame exec =>
          obtain rfl := Option.some.inj step
          exact .run exec
      · cases step
  | softirq n =>
      simp only [State.step] at step
      split at step
      · next b ready =>
          split at step
          · next k next exec =>
              obtain rfl := Option.some.inj step
              exact .softirq ready exec
          · cases step
      · cases step
  | signal t =>
      simp only [State.step] at step
      split at step
      · cases step
      · next busy =>
          obtain rfl := Option.some.inj step
          exact .signal busy
  | reuse s ts =>
      simp only [State.step] at step
      split at step
      · next freed =>
          obtain rfl := Option.some.inj step
          exact .reuse freed
      · cases step

end State

/-- The allocator never gives out freed memory again. -/
def NoReuse : Event τ → Prop
  | .reuse _ _ => False
  | _ => True

instance (e : Event τ) : Decidable (NoReuse e) :=
  match e with
  | .reuse _ _ => isFalse id
  | .call _ _ _ | .run _ _ | .softirq _ | .signal _ => isTrue trivial

/-- The value a thread in user mode has got from its last call. -/
def Frame.result : Frame → Option Int
  | user last => last
  | _ => none

/-- In user mode. -/
def Frame.idle : Frame → Bool
  | user _ => true
  | _ => false

theorem Frame.eq_user_of_idle {frame : Frame} (idle : frame.idle = true)
    : ∃ last, frame = .user last := by
  cases frame <;> first | exact ⟨_, rfl⟩ | cases idle

theorem Frame.eq_user_of_result {frame : Frame} {r : Int} (result : frame.result = some r)
    : frame = .user (some r) := by
  cases frame <;> cases result
  rfl

-----------------------------------------------------------------------------------------
-- Sequences of events
-----------------------------------------------------------------------------------------

/-- The next `n` steps of a thread, with no failure reported from outside. -/
def runs (t : τ) (n : Nat) : List (Event τ) :=
  List.replicate n (.run t 0)

/-- What is left of a creation that is about to allocate, with every allocation succeeding. -/
def completing (t : τ) : List (Event τ) :=
  .run t creationAllocations :: runs t 78

/-- A whole creation under a key that hashes to a free entry. -/
def creating (t : τ) (key : Int) : List (Event τ) :=
  .call t 0 (.tagGet key CREATE_TAG EVERYONE) :: runs t 3 ++ completing t

/-- A thread receives until it sleeps. -/
def fallingAsleep (t : τ) (tag level : Int) : List (Event τ) :=
  .call t 0 (.tagReceive tag level true 16) :: runs t 20

/-- The first `n` steps of a thread that sends. -/
def sending (t : τ) (tag level : Int) (buffer : List UInt8) (n : Nat) : List (Event τ) :=
  .call t 0 (.tagSend tag level buffer buffer.length) :: runs t n

/-- The first `n` steps of a thread that removes a service. -/
def removing (t : τ) (tag : Int) (n : Nat) : List (Event τ) :=
  .call t 0 (.tagCtl tag REMOVE_TAG) :: runs t n

/-- The first `n` steps of a thread that awakes all. -/
def awaking (t : τ) (tag : Int) (n : Nat) : List (Event τ) :=
  .call t 0 (.tagCtl tag AWAKE_ALL) :: runs t n

-----------------------------------------------------------------------------------------
-- The machine
-----------------------------------------------------------------------------------------

/-- The module as a machine, from the state that mounting it leaves. -/
def machine (τ : Type) [DecidableEq τ] : Machine (State τ) (Event τ) where
  start := .start
  step := State.step

end TagExchange
