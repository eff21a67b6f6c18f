import TagExchange.Model.Debts
import TagExchange.Model.DeviceMoves
import TagExchange.Model.CallerMoves
import TagExchange.Model.ReceiveMoves

/-! How many steps a call has left at most before it returns or falls asleep, how many wake-ups and
callbacks it has still to make, and how many steps a callback has left. Every step uses up one of its
own.
-/

namespace TagExchange

open Concurrency

variable {τ : Type}

-----------------------------------------------------------------------------------------
-- The routines
-----------------------------------------------------------------------------------------

/-- The scan looks at every entry once. -/
def FindPc.stepsLeft : FindPc → Nat
  | hint => 518
  | probe _ => 517
  | full => 516
  | scan i => 3 + (MAX_TAG_SERVICES - i).toNat
  | store _ => 2
  | result => 1

def CreateDevicePc.stepsLeft : CreateDevicePc → Nat
  | load => 73
  | lock _ => 72
  | add _ => 71
  | node _ => 70
  | content _ => 69
  | noContent => 69
  | fill _ => 68
  | count _ rows => 5 + 2 * (31 - rows.length)
  | print _ _ rows => 4 + 2 * (31 - rows.length)
  | write _ => 3
  | unlock _ => 2
  | delete => 1
  | oops => 0

def DestroyDevicePc.stepsLeft : DestroyDevicePc → Nat
  | lock => 4
  | node => 3
  | content => 2
  | unlock => 1

def UpdatePc.stepsLeft : UpdatePc → Nat
  | check => 9
  | load => 8
  | waiting _ => 7
  | index _ _ => 6
  | lock _ _ => 5
  | read _ _ => 4
  | free _ _ => 3
  | assign _ _ => 2
  | unlock _ => 1
  | oops => 0

/-- What a routine has left after a step; nothing when it has returned. -/
def Then.stepsLeft {π ρ : Type} (left : π → Nat) : Then π ρ → Nat
  | go pc => left pc
  | back _ => 0

-----------------------------------------------------------------------------------------
-- The calls
-----------------------------------------------------------------------------------------

def GetPc.stepsLeft : GetPc → Nat
  | entry => 601
  | find pc => 82 + pc.stepsLeft
  | lock => 82
  | available => 81
  | kzalloc => 80
  | fields => 79
  | publish => 78
  | unlockCreated => 77
  | decRemaining => 76
  | device pc => 2 + pc.stepsLeft
  | print => 2
  | opened => 7
  | loadOpened => 6
  | lazyDeleted => 5
  | permission => 4
  | unlockDenied => 3
  | denied => 2
  | unlock _ => 2
  | ret _ => 1
  | oops => 0

def SendPc.stepsLeft : SendPc → Nat
  | entry => 17
  | getPage => 16
  | copyFromUser => 15
  | load => 14
  | lock => 13
  | lazyDeleted => 12
  | permission => 11
  | memcpy => 10
  | terminator => 9
  | size => 8
  | ready => 7
  | waiters => 6
  | wakeUp => 4
  | callRcu => 3
  | notReady => 5
  | memset => 4
  | unlock _ => 3
  | freePage _ => 2
  | ret _ _ => 1
  | oops _ => 0

/-- A receiver goes once more through the loop of `wait_event_interruptible` if it has been woken
since it queued up, and does not if it has noticed a signal there.
-/
def ReceivePc.stepsLeft (woken interrupted : Bool) : ReceivePc → Nat
  | entry => 41
  | load => 40
  | lazyDeleted => 39
  | permission => 38
  | incCount => 37
  | incLevel => 36
  | entered pc => 26 + pc.stepsLeft
  | firstReady => 26
  | firstAwake => 25
  | prepare => 24
  | testReady => if woken && !interrupted then 27 else 23
  | testAwake => if woken && !interrupted then 26 else 22
  | sleep => if woken then 25 else 21
  | finish => 20
  | rcuLock => 19
  | signal => 18
  | ready => 17
  | size => 16
  | copy => 15
  | rcuUnlock _ => 14
  | decCount _ => 13
  | decLevel _ => 12
  | left _ pc => 2 + pc.stepsLeft
  | print => 2
  | ret _ => 1

def CtlPc.stepsLeft : CtlPc → Nat
  | entry => 539
  | load => 538
  | index => 537
  | lock => 536
  | lazyDeleted => 535
  | permission => 534
  | waiters => 531
  | delete => 530
  | unlockIndex _ => 529
  | unlock _ => 528
  | busy => 2
  | destroyIndex => 527
  | destroy pc => 522 + pc.stepsLeft
  | unlink => 522
  | find pc => 3 + pc.stepsLeft
  | incRemaining => 3
  | kfree => 2
  | awakened => 533
  | request => 532
  | wakeUp => 531
  | callRcu => 2
  | reset => 530
  | ret _ => 1

/-- The most steps a call can make before it returns or falls asleep; `woken` says that nothing
keeps its thread asleep.
-/
def Frame.stepsLeft (woken : Bool) : Frame → Nat
  | user _ => 0
  | get f => f.pc.stepsLeft
  | send f => f.pc.stepsLeft
  | receive f => f.pc.stepsLeft woken f.interrupted
  | ctl f => f.pc.stepsLeft

/-- The wake-ups a call has still to make, and the callbacks it has still to register. -/
def Frame.wakesLeft : Frame → Nat
  | send f =>
      match f.pc with
      | .entry | .getPage | .copyFromUser | .load | .lock | .lazyDeleted | .permission | .memcpy
      | .terminator | .size | .ready | .waiters | .wakeUp => 2
      | .callRcu => 1
      | _ => 0
  | ctl f =>
      match f.pc with
      | .entry | .load | .index | .lock | .lazyDeleted | .permission | .awakened | .request
      | .wakeUp => 2
      | .callRcu => 1
      | _ => 0
  | _ => 0

/-- The call is about to wake all threads that sleep. -/
def Frame.wakesAll : Frame → Bool
  | send f =>
      match f.pc with
      | .wakeUp => true
      | _ => false
  | ctl f =>
      match f.pc with
      | .wakeUp => true
      | _ => false
  | _ => false

def Op.wakesAll {α : Type} : Op τ α → Bool
  | wakeUpAll _ => true
  | _ => false

/-- These are all the wake-ups, by cases on the program point. -/
theorem op_wakesAll (c : CallId τ) (frame : Frame) : (frame.op c).wakesAll = frame.wakesAll := by
  cases frame with
  | user last => rfl
  | get f =>
      obtain ⟨key, command, permission, euid, tag, ts, pc⟩ := f
      cases pc
      case find pc => cases pc <;> rfl
      case device pc => cases pc using CreateDevicePc.points <;> rfl
      all_goals rfl
  | send f =>
      obtain ⟨tag, level, buffer, size, euid, realSize, stored, ts, pc⟩ := f
      cases pc <;> rfl
  | receive f =>
      obtain ⟨tag, level, buffer, size, euid, ts, realSize, interrupted, copied, pc⟩ := f
      cases pc
      case entered pc => cases pc <;> rfl
      case left x pc => cases pc <;> rfl
      all_goals rfl
  | ctl f =>
      obtain ⟨tag, command, euid, ts, index, awakened, pc⟩ := f
      cases pc
      case find pc => cases pc <;> rfl
      case destroy pc => cases pc <;> rfl
      all_goals rfl

/-- The call is about to leave its mutex to a callback. -/
def Frame.handsOver : Frame → Bool
  | send f =>
      match f.pc with
      | .callRcu => true
      | _ => false
  | ctl f =>
      match f.pc with
      | .callRcu => true
      | _ => false
  | _ => false

def Stage.stepsLeft : Stage → Nat
  | clear => 5
  | zero => 4
  | tag => 3
  | unlock _ => 2
  | print => 1

def Callback.stepsLeft (b : Callback τ) : Nat := b.stage.stepsLeft

variable [DecidableEq τ]

/-- Nothing keeps the thread asleep: it is not queued, or it has a signal. -/
def Kernel.woken (k : Kernel τ) (t : τ) : Bool :=
  k.signalled t || !decide (t ∈ k.theQueue)

variable {k k' : Kernel τ} {external : Nat}

-----------------------------------------------------------------------------------------
-- One step of a routine
-----------------------------------------------------------------------------------------

omit [DecidableEq τ] in
/-- The search comes closer to its end, by cases on the program point. -/
theorem yields_find (pc : FindPc)
    : (findFirstEntryAvailable (τ := τ) pc).Yields fun next =>
        next.stepsLeft FindPc.stepsLeft < pc.stepsLeft := by
  have passed (i : Int) : 2 < 3 + (MAX_TAG_SERVICES - i).toNat := by omega
  cases pc with
  | hint => exact fun _ => Nat.le_of_ble_eq_true rfl
  | probe i =>
      intro found
      dsimp only
      split <;> exact Nat.le_of_ble_eq_true rfl
  | full =>
      intro left
      dsimp only
      split <;> exact Nat.le_of_ble_eq_true rfl
  | scan i =>
      intro found
      dsimp only
      split
      · exact passed i
      · split
        · next more =>
            show 3 + (MAX_TAG_SERVICES - (i + 1)).toNat < 3 + (MAX_TAG_SERVICES - i).toNat
            omega
        · exact Nat.lt_of_succ_lt (passed i)
  | store i => exact Nat.le_of_ble_eq_true rfl
  | result => exact fun _ => Nat.le_of_ble_eq_true rfl

theorem stepsLeft_of_find {pc : FindPc} {next : Then FindPc Int}
    (exec : k.exec external (findFirstEntryAvailable pc) = some (k', next))
    : next.stepsLeft FindPc.stepsLeft < pc.stepsLeft :=
  Kernel.exec_yields (P := fun next => next.stepsLeft FindPc.stepsLeft < pc.stepsLeft)
    (yields_find pc) exec

omit [DecidableEq τ] in
theorem CreateMove.stepsLeft {tagMinor : Int} {pc : CreateDevicePc} {next : Then CreateDevicePc Unit}
    (move : CreateMove k tagMinor pc next)
    : next.stepsLeft CreateDevicePc.stepsLeft < pc.stepsLeft := by
  cases move with
  | count => exact Nat.add_lt_add_right (by decide : 4 < 5) _
  | @print s n rows more =>
      have more : rows.length + 1 < 32 := more
      simp only [Then.stepsLeft, CreateDevicePc.stepsLeft, List.length_append, List.length_singleton]
      omega
  | printLast => exact Nat.lt_of_lt_of_le (Nat.lt_succ_self 3) (Nat.le_add_right ..)
  | _ => exact Nat.le_of_ble_eq_true rfl

omit [DecidableEq τ] in
theorem DestroyMove.stepsLeft {tagMinor : Int} {pc : DestroyDevicePc}
    {next : Then DestroyDevicePc Unit} (move : DestroyMove k tagMinor pc next)
    : next.stepsLeft DestroyDevicePc.stepsLeft < pc.stepsLeft := by
  cases move <;> exact Nat.le_of_ble_eq_true rfl

omit [DecidableEq τ] in
theorem UpdateMove.stepsLeft {tagMinor level : Int} {pc : UpdatePc} {next : Then UpdatePc Unit}
    (move : UpdateMove k external tagMinor level pc next)
    : next.stepsLeft UpdatePc.stepsLeft < pc.stepsLeft := by
  cases move <;> exact Nat.le_of_ble_eq_true rfl

-----------------------------------------------------------------------------------------
-- One step of a call
-----------------------------------------------------------------------------------------

variable {after : Frame}

/-- Every step of `tag_get` uses up one of its steps, by cases on the move. -/
theorem GetFrame.stepsLeft_of_exec {t : τ} {f : GetFrame} {woken : Bool}
    (exec : k.exec external (tagGet t f) = some (k', after))
    : after.stepsLeft woken < f.pc.stepsLeft := by
  have move := getMove_of_exec exec
  obtain ⟨key, command, permission, euid, tag, ts, pc⟩ := f
  cases pc
  case find pc =>
    obtain ⟨next, inner, rfl⟩ := Kernel.exec_map_eq_some exec
    have less := stepsLeft_of_find inner
    cases next with
    | go pc' => exact Nat.add_lt_add_left less 82
    | back found =>
        have some_ : 0 < pc.stepsLeft := less
        show (GetFrame.found _ found).stepsLeft woken < 82 + pc.stepsLeft
        rw [GetFrame.found]
        split
        · show 1 < 82 + pc.stepsLeft
          omega
        · show 82 < 82 + pc.stepsLeft
          omega
  case device pc =>
    obtain ⟨next, inner, rfl⟩ := created_of_exec rfl exec
    have less := inner.stepsLeft
    cases next with
    | go pc' => exact Nat.add_lt_add_left less 2
    | back =>
        have some_ : 0 < pc.stepsLeft := less
        show 2 < 2 + pc.stepsLeft
        omega
  all_goals
    cases move
    all_goals exact Nat.le_of_ble_eq_true rfl

/-- So does every step of `tag_send`. -/
theorem SendFrame.stepsLeft_of_exec {c : CallId τ} {f : SendFrame} {woken : Bool}
    (exec : k.exec external (tagSend c f) = some (k', after))
    : after.stepsLeft woken < f.pc.stepsLeft := by
  have move := sendMove_of_exec exec
  obtain ⟨tag, level, buffer, size, euid, realSize, stored, ts, pc⟩ := f
  cases move <;> exact Nat.le_of_ble_eq_true rfl

/-- So does every step of `tag_ctl`. -/
theorem CtlFrame.stepsLeft_of_exec {c : CallId τ} {f : CtlFrame} {woken : Bool}
    (exec : k.exec external (tagCtl c f) = some (k', after))
    : after.stepsLeft woken < f.pc.stepsLeft := by
  have move := ctlMove_of_exec exec
  obtain ⟨tag, command, euid, ts, index, awakened, pc⟩ := f
  cases pc
  case find pc =>
    obtain ⟨next, inner, rfl⟩ := Kernel.exec_map_eq_some exec
    have less := stepsLeft_of_find inner
    cases next with
    | go pc' => exact Nat.add_lt_add_left less 3
    | back found =>
        have some_ : 0 < pc.stepsLeft := less
        show 3 < 3 + pc.stepsLeft
        omega
  case destroy pc =>
    obtain ⟨next, inner, rfl⟩ := destroyed_of_exec rfl exec
    have less := inner.stepsLeft
    cases next with
    | go pc' => exact Nat.add_lt_add_left less 522
    | back =>
        have some_ : 0 < pc.stepsLeft := less
        show 522 < 522 + pc.stepsLeft
        omega
  all_goals
    cases move
    all_goals exact Nat.le_of_ble_eq_true rfl

/-- So does every step of `tag_receive`: it goes back to the head of its loop only after it has been
woken, and has queued up or noticed a signal when it gets to the tests.
-/
theorem ReceiveFrame.stepsLeft_of_exec {t : τ} {f : ReceiveFrame}
    (exec : k.exec external (tagReceive t f) = some (k', after))
    : after.stepsLeft (k'.woken t) < f.pc.stepsLeft (k.woken t) f.interrupted := by
  have move := receiveMove_of_exec exec
  have queue := (Kernel.exec_performs exec).queue
  have signalled := (Kernel.exec_performs exec).signalled
  obtain ⟨tag, level, buffer, size, euid, ts, realSize, interrupted, copied, pc⟩ := f
  -- A test leaves the queue and the signals as they are.
  have same (queue : k'.theQueue = k.theQueue) (signalled : k'.signalled = k.signalled)
      : k'.woken t = k.woken t := by
    rw [Kernel.woken, Kernel.woken, queue, signalled]
  cases pc
  case entered pc =>
    obtain ⟨next, inner, rfl⟩ := Kernel.exec_map_eq_some exec
    have less := (updateMove_of_exec inner).stepsLeft
    cases next with
    | go pc' => exact Nat.add_lt_add_left less 26
    | back =>
        have some_ : 0 < pc.stepsLeft := less
        show 26 < 26 + pc.stepsLeft
        omega
  case left x pc =>
    obtain ⟨next, inner, rfl⟩ := Kernel.exec_map_eq_some exec
    have less := (updateMove_of_exec inner).stepsLeft
    cases next with
    | go pc' => exact Nat.add_lt_add_left less 2
    | back =>
        have some_ : 0 < pc.stepsLeft := less
        dsimp only
        split
        · show 2 < 2 + pc.stepsLeft
          omega
        · show 1 < 2 + pc.stepsLeft
          omega
  case prepare =>
    cases move
    show (if k'.woken t && !k.signalled t then 27 else 23) < 24
    have signalled : k'.signalled = k.signalled := signalled
    cases pending : k.signalled t with
    | true => simp
    | false =>
        have queued : t ∈ k'.theQueue := by
          rw [queue]
          simp only [tagReceive, Op.onQueue, pending]
          split
          · contradiction
          · split
            · assumption
            · exact List.mem_cons_self ..
        simp [Kernel.woken, signalled, pending, queued]
  case testReady =>
    cases move with
    | testReady =>
        show 20 < if k.woken t && !interrupted then 27 else 23
        split <;> decide
    | testNotReady =>
        show (if k'.woken t && !interrupted then 26 else 22) < if k.woken t && !interrupted then 27 else 23
        rw [same queue signalled]
        split <;> decide
  case testAwake =>
    have finish : 20 < if k.woken t && !interrupted then 26 else 22 := by
      split <;> decide
    cases move with
    | testAwake => exact finish
    | testInterrupted => exact finish
    | fallAsleep awake calm =>
        obtain rfl : interrupted = false := calm
        show (if k'.woken t then 25 else 21) < if k.woken t && true then 26 else 22
        rw [same queue signalled, Bool.and_true]
        split <;> decide
  case sleep =>
    cases move with
    | wake woken =>
        have woken : k.woken t = true := by
          simp only [Kernel.woken, Bool.or_eq_true, Bool.not_eq_true', decide_eq_false_iff_not]
          exact (Decidable.em (t ∈ k.theQueue)).imp woken id
        rw [woken]
        exact Nat.le_of_ble_eq_true rfl
  all_goals
    cases move
    all_goals exact Nat.le_of_ble_eq_true rfl

/-- Every step of a call uses up one of its steps. -/
theorem Frame.stepsLeft_of_exec {c : CallId τ} {before : Frame}
    (exec : k.exec external (before.op c) = some (k', after))
    : after.stepsLeft (k'.woken c.1) < before.stepsLeft (k.woken c.1) := by
  cases before with
  | user last => cases exec
  | get f => exact GetFrame.stepsLeft_of_exec exec
  | send f => exact SendFrame.stepsLeft_of_exec exec
  | receive f => exact ReceiveFrame.stepsLeft_of_exec exec
  | ctl f => exact CtlFrame.stepsLeft_of_exec exec

/-- A call makes its wake-up once and registers its callback once, by cases on the move. -/
theorem Frame.wakesLeft_of_exec {c : CallId τ} {before : Frame}
    (exec : k.exec external (before.op c) = some (k', after))
    : after.wakesLeft + (if before.wakesAll || before.handsOver then 1 else 0)
      ≤ before.wakesLeft := by
  have same := Kernel.exec_sameCall exec
  cases before with
  | user last => cases exec
  | get f => cases after <;> first | exact Nat.le_refl 0 | cases same
  | receive f => cases after <;> first | exact Nat.le_refl 0 | cases same
  | send f =>
      have move := sendMove_of_exec exec
      obtain ⟨tag, level, buffer, size, euid, realSize, stored, ts, pc⟩ := f
      cases move <;> exact Nat.le_of_ble_eq_true rfl
  | ctl f =>
      have move := ctlMove_of_exec exec
      obtain ⟨tag, command, euid, ts, index, awakened, pc⟩ := f
      cases move <;> exact Nat.le_of_ble_eq_true rfl

/-- Every step of a callback uses up one of its steps, by cases on the stage. -/
theorem Callback.stepsLeft_of_exec {b : Callback τ} {next : Option (Callback τ)}
    (exec : k.exec external b.op = some (k', next))
    : next.elim 0 Callback.stepsLeft < b.stepsLeft := by
  obtain ⟨job, s, stage, caller⟩ := b
  cases job <;> cases stage <;> obtain ⟨-, rfl⟩ := Prod.mk.inj (Option.some.inj exec)
  all_goals simp [Callback.stepsLeft, Stage.stepsLeft]

/-- Whether a thread is asleep changes by its own steps and by wake-ups, by cases on the operation. -/
theorem woken_of_exec {c : CallId τ} {before : Frame} {u : τ} (other : u ≠ c.1)
    (quiet : before.wakesAll = false) (exec : k.exec external (before.op c) = some (k', after))
    : k'.woken u = k.woken u := by
  have own := fun v => op_thread c before (u := v)
  have quiet : (before.op c).wakesAll = false := by rw [op_wakesAll, quiet]
  rw [Kernel.woken, Kernel.woken, (Kernel.exec_performs exec).queue,
    (Kernel.exec_performs exec).signalled]
  generalize before.op c = op at own quiet
  cases op
  case wakeUpAll next => cases quiet
  case leave v put next =>
    obtain rfl := own v rfl
    show (Function.update k.signalled c.1 false u || _) = _
    rw [Function.update_of_ne other]
    rfl
  case prepareToWait v next =>
    obtain rfl := own v rfl
    simp only [Op.onQueue, Op.onSignalled]
    split
    · simp only [List.mem_erase_of_ne other]
    · split
      · rfl
      · simp only [List.mem_cons, other, false_or]
  case finishWait v next =>
    obtain rfl := own v rfl
    simp only [Op.onQueue, Op.onSignalled, List.mem_erase_of_ne other]
  all_goals rfl

end TagExchange
