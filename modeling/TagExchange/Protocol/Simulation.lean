import TagExchange.Model.Effects
import TagExchange.Protocol.Invariant

/-! The code follows the protocol: every step of a system call is a move of its view, every
step of a callback a callback move.
-/

namespace TagExchange

open Concurrency Protocol

variable {τ : Type}

-----------------------------------------------------------------------------------------
-- The protocol's part of the state
-----------------------------------------------------------------------------------------

/-- A service without its waiting counters. -/
def TagService.flags (ts : TagService) : TagService :=
  { ts with
    threadWaitingMessageCount := 0
    level := fun l => { ts.level l with threadWaiting := 0 } }

/-- The stores that only change waiting counters. -/
def Write.counts : Write → Bool
  | incCount | decCount | incLevel _ | decLevel _ => true
  | _ => false

theorem TagService.flags_apply (ts : TagService) (w : Write)
    : (w.apply ts).flags = if w.counts then ts.flags else w.apply ts.flags := by
  cases w <;>
    simp only [Write.apply, Write.counts, flags, onLevel, if_true, if_false, Bool.false_eq_true,
      mk.injEq, and_true]
  all_goals
    funext k
    simp only [Function.update_apply]
    split <;> simp_all

@[simp] theorem TagService.flags_created (key tag permission euid : Int)
    : (created key tag permission euid).flags = created key tag permission euid :=
  rfl

def Kernel.core (k : Kernel τ) : Core τ where
  slot := k.tsm.allTagServices
  locked := k.tsm.accessLock
  service := fun s => (k.service s).flags
  freed := k.freed
  services := k.services
  callbacks := k.rcu.among Callback.owes

@[simp] theorem Kernel.core_slot (k : Kernel τ) : k.core.slot = k.tsm.allTagServices := rfl

@[simp] theorem Kernel.core_locked (k : Kernel τ) : k.core.locked = k.tsm.accessLock := rfl

@[simp] theorem Kernel.core_lazyDeleted (k : Kernel τ) (s : Ref)
    : (k.core.service s).lazyDeleted = (k.service s).lazyDeleted :=
  rfl

@[simp] theorem Kernel.core_tag (k : Kernel τ) (s : Ref) : k.core.tag s = (k.service s).tag :=
  rfl

@[simp] theorem Kernel.core_levelTag (k : Kernel τ) (s : Ref) (l : Int)
    : ((k.core.service s).level l).tag = ((k.service s).level l).tag :=
  rfl

@[simp] theorem Kernel.core_awake (k : Kernel τ) (s : Ref)
    : k.core.awake s = (k.service s).awakeRequest :=
  rfl

@[simp] theorem Kernel.core_ready (k : Kernel τ) (s : Ref) (l : Int)
    : k.core.ready s l = ((k.service s).level l).messageReady :=
  rfl

/-- What an operation does to the protocol's part of the state. -/
def Op.effect {α : Type} : Op τ α → Core τ → Core τ
  | mutexLock i _, c => c.lock i
  | mutexUnlock i _, c => c.unlock i
  | storeSlot i ts _, c => c.setSlot i ts
  | store s w _, c => if w.counts then c else c.store s w
  | kzalloc ts _, c => c.create ts.flags
  | kfree s _, c => c.free s
  | callRcu b _, c => if b.owes then c.callRcu b else c
  | _, c => c

@[simp] theorem Op.effect_map {α β : Type} (f : α → β) (op : Op τ α) (c : Core τ)
    : (op.map f).effect c = op.effect c := by
  cases op <;> rfl

/-- The one lemma about `exec` that the protocol needs. -/
theorem Kernel.exec_core [DecidableEq τ] {α : Type} {k k' : Kernel τ} {external : Nat}
    {op : Op τ α} {a : α} (step : k.exec external op = some (k', a))
    : k'.core = op.effect k.core := by
  cases op <;> simp only [exec, Option.some.injEq, Prod.mk.injEq, Option.ite_none_left_eq_some,
    Option.map_eq_some_iff, reduceCtorEq] at step
  case external => obtain ⟨_, -, rfl, -⟩ := step; rfl
  case mutexLock => obtain ⟨-, rfl, -⟩ := step; rfl
  case deviceLock => obtain ⟨-, rfl, -⟩ := step; rfl
  case schedule => obtain ⟨-, rfl, -⟩ := step; rfl
  case getZeroedPage =>
    split at step <;> obtain ⟨rfl, -⟩ := Prod.mk.inj (Option.some.inj step) <;> rfl
  all_goals obtain ⟨rfl, -⟩ := step
  case store s w _ =>
    simp only [core, Op.effect, Core.store]
    split
    · congr 1
      funext r
      rcases eq_or_ne r s with rfl | other
      · simp [TagService.flags_apply, *]
      · simp [Function.update_of_ne other]
    · congr 1
      funext r
      rcases eq_or_ne r s with rfl | other
      · simp [TagService.flags_apply, *]
      · simp [Function.update_of_ne other]
  case kzalloc =>
    simp only [core, Op.effect, Core.create]
    congr 1
    funext r
    rcases eq_or_ne r k.services with rfl | other
    · simp
    · simp [Function.update_of_ne other]
  case writeText i _ _ => simp only [onContent]; split <;> rfl
  case freeText i _ => simp only [onContent]; split <;> rfl
  case callRcu =>
    simp only [core, Op.effect, Core.callRcu, Rcu.among_callRcu]
    split <;> rfl
  case rcuReadUnlock => simp [core, Op.effect]
  all_goals rfl

-----------------------------------------------------------------------------------------
-- The view of a system call
-----------------------------------------------------------------------------------------

def GetFrame.view (f : GetFrame) : View :=
  match f.pc with
  | .kzalloc | .fields => .vacant f.tag
  | .publish => .fresh f.ts f.tag
  | .available | .unlockCreated | .opened | .loadOpened | .lazyDeleted | .permission
  | .unlockDenied | .unlock _ | .oops => .owning f.tag
  | .entry | .find _ | .lock | .decRemaining | .device _ | .print | .denied | .ret _ => .outside

def SendFrame.view (f : SendFrame) : View :=
  match f.pc with
  | .entry | .getPage | .copyFromUser | .load | .freePage _ | .ret _ _ | .oops _ => .outside
  | .lock => .known f.ts f.tag
  | .lazyDeleted => .checking f.ts f.tag
  | .permission | .memcpy => .inside f.ts f.tag
  | .terminator | .size | .ready => .filling f.ts f.tag f.level
  | .waiters | .wakeUp | .callRcu | .notReady => .posted f.ts f.tag f.level
  | .memset => .clearing f.ts f.tag f.level
  | .unlock _ => .owning f.tag

/-- What the program points of `tag_ctl` stand for when the service carries the tag that
the call was given.
-/
def CtlFrame.place (f : CtlFrame) : View :=
  match f.pc with
  | .entry | .load | .busy | .ret _ => .outside
  | .index | .lock => .known f.ts f.tag
  | .lazyDeleted => .checking f.ts f.tag
  | .permission | .waiters | .delete | .awakened | .request => .inside f.ts f.tag
  | .wakeUp | .callRcu | .reset => .waking f.ts f.tag
  | .unlockIndex .destroy => .deleting f.ts f.tag
  | .unlockIndex _ => .checking f.ts f.tag
  | .unlock .destroy => .deleting f.ts f.tag
  | .unlock _ => .owning f.tag
  | .destroyIndex | .destroy _ | .unlink => .removing f.ts f.tag
  | .find _ | .incRemaining | .kfree => .unlinked f.ts

/-- The mutex of a call is the one of `f.index`, loaded from the service; a call that took
another one than that of its tag is outside the protocol.
-/
def CtlFrame.view (f : CtlFrame) : View :=
  match f.pc with
  | .entry => if f.index = f.tag then .outside else .stray
  | .busy | .ret _ => .outside
  | .destroyIndex | .destroy _ | .unlink | .find _ | .incRemaining | .kfree => f.place
  | _ => if f.index = f.tag ∧ (f.command = REMOVE_TAG ∨ f.command = AWAKE_ALL) then f.place
         else .stray

def Frame.view : Frame → View
  | user _ | receive _ => .outside
  | get f => f.view
  | send f => f.view
  | ctl f => f.view

-----------------------------------------------------------------------------------------
-- The steps of the system calls
-----------------------------------------------------------------------------------------

@[simp] theorem findFirstEntryAvailable_effect (pc : FindPc) (c : Core τ)
    : (findFirstEntryAvailable pc).effect c = c := by
  cases pc <;> rfl

@[simp] theorem tsCreateCharDeviceFile_effect (i : Int) (pc : CreateDevicePc) (c : Core τ)
    : (tsCreateCharDeviceFile i pc).effect c = c := by
  cases pc <;> try rfl
  case fill ts => cases ts <;> rfl

@[simp] theorem tsDestroyCharDeviceFile_effect (i : Int) (pc : DestroyDevicePc) (c : Core τ)
    : (tsDestroyCharDeviceFile i pc).effect c = c := by
  cases pc <;> rfl

@[simp] theorem updateChrdev_effect (i l : Int) (pc : UpdatePc) (c : Core τ)
    : (updateChrdev i l pc).effect c = c := by
  cases pc <;> rfl

/-- `tag_receive` only changes waiting counters. -/
theorem tagReceive_effect (t : τ) (f : ReceiveFrame) (c : Core τ)
    : (tagReceive t f).effect c = c := by
  obtain ⟨tag, level, buffer, size, euid, ts, realSize, interrupted, copied, pc⟩ := f
  cases pc <;> first | rfl | exact (Op.effect_map _ _ _).trans (updateChrdev_effect _ _ _ _)

variable [DecidableEq τ] {k k' : Kernel τ} {external : Nat} {frame : Frame}

theorem tagGet_move {t : τ} {f : GetFrame}
    (step : k.exec external (tagGet t f) = some (k', frame))
    : Move k.core f.view k'.core frame.view := by
  have effect := Kernel.exec_core step
  obtain ⟨key, command, permission, euid, tag, ts, pc⟩ := f
  cases pc
  case find pc =>
    obtain ⟨next, -, rfl⟩ := Kernel.exec_map_eq_some step
    simp only [tagGet, Op.effect_map, findFirstEntryAvailable_effect] at effect
    rw [effect]
    cases next with
    | go pc => exact .stay .outside
    | back tag =>
        simp only [GetFrame.found]
        split <;> exact .stay .outside
  case device pc =>
    obtain ⟨next, -, rfl⟩ := Kernel.exec_map_eq_some step
    simp only [tagGet, Op.effect_map, tsCreateCharDeviceFile_effect] at effect
    rw [effect]
    cases next <;> exact .stay .outside
  case oops => simp [tagGet, Kernel.exec] at step
  all_goals
    simp only [tagGet, Kernel.exec, Option.some.injEq, Prod.mk.injEq, Option.map_eq_some_iff,
      Option.ite_none_left_eq_some] at step
    simp only [tagGet, Op.effect] at effect
    rw [effect]
  case kzalloc =>
    obtain ⟨next, choice, -, rfl⟩ := step
    split at choice
    · cases choice
      exact .refuse
    · split at choice <;> cases choice
      · exact .refuse
      · exact .stay (.vacant tag)
  case lock =>
    obtain ⟨free, -, rfl⟩ := step
    have owning : Move k.core .outside (k.core.lock tag) (.owning tag) :=
      .enter (by simpa using free)
    (repeat' split) <;> exact owning
  all_goals obtain ⟨-, rfl⟩ := step
  case entry => (repeat' split) <;> exact .stay .outside
  case available =>
    split
    · exact .stay (.owning tag)
    · next empty => exact .vacate (by simpa using empty)
  case fields => exact .create
  case publish => exact .publish
  case unlockCreated => exact .release
  case unlockDenied => exact .release
  case unlock r => exact .release
  case opened => split <;> exact .stay (.owning tag)
  case loadOpened => split <;> exact .stay (.owning tag)
  case lazyDeleted => split <;> exact .stay (.owning tag)
  case permission => split <;> exact .stay (.owning tag)
  all_goals exact .stay .outside

theorem tagSend_move {c : CallId τ} {f : SendFrame}
    (step : k.exec external (tagSend c f) = some (k', frame))
    : Move k.core f.view k'.core frame.view := by
  have effect := Kernel.exec_core step
  obtain ⟨tag, level, buffer, size, euid, realSize, stored, ts, pc⟩ := f
  cases pc
  all_goals
    simp only [tagSend, Kernel.exec, Option.some.injEq, Prod.mk.injEq, Option.map_eq_some_iff,
      Option.ite_none_left_eq_some] at step
    simp only [tagSend, Op.effect, Write.counts, Bool.false_eq_true, if_false] at effect
    rw [effect]
  case copyFromUser =>
    obtain ⟨next, choice, -, rfl⟩ := step
    split at choice
    · obtain rfl := Option.some.inj choice
      exact .stay .outside
    · obtain ⟨-, same⟩ := Option.ite_none_right_eq_some.mp choice
      obtain rfl := Option.some.inj same
      exact .stay .outside
  case getPage =>
    split at step <;> obtain ⟨-, rfl⟩ := Prod.mk.inj (Option.some.inj step) <;> exact .stay .outside
  case oops => cases step
  case lock =>
    obtain ⟨free, -, rfl⟩ := step
    exact .acquire (by simpa using free)
  all_goals obtain ⟨-, rfl⟩ := step
  case entry => (repeat' split) <;> exact .stay .outside
  case load =>
    cases found : k.tsm.allTagServices tag with
    | none => exact .stay .outside
    | some s => exact .find found
  case lazyDeleted =>
    split
    · exact .yield (.inl rfl)
    · next alive => exact .pass (by simpa using alive)
  case permission =>
    split
    · exact .yield (.inr rfl)
    · exact .stay (.inside ts tag)
  case memcpy => exact .fill ⟨_, _, rfl⟩
  case terminator => exact .finish (.inl ⟨_, rfl⟩)
  case size => exact .finish (.inr ⟨_, rfl⟩)
  case ready => exact .post
  case waiters => split <;> exact .stay (.posted ts tag level)
  case wakeUp => exact .stay (.posted ts tag level)
  case callRcu => exact .deferSend
  case notReady => exact .retract
  case memset => exact .wipe
  case unlock r => exact .release
  all_goals exact .stay .outside

omit [DecidableEq τ] in
/-- The tag loaded from the service selects the mutex: the view goes astray where that is
not the mutex of the tag.
-/
theorem Protocol.Move.reload {c : Core τ} {v v' : View} {s : Ref} {i j : Int} {p : Prop} [Decidable p]
    (pointer : v = .known s i ∨ v = .checking s i ∨ v = .deleting s i) (tag : c.tag s = j)
    (valid : p) (same : Move c v c v')
    : Move c v c (if j = i ∧ p then v' else .stray) := by
  split
  · exact same
  · next other => exact .astray pointer fun h => other ⟨tag ▸ h, valid⟩

theorem tagCtl_move {c : CallId τ} {f : CtlFrame}
    (step : k.exec external (tagCtl c f) = some (k', frame))
    : Move k.core f.view k'.core frame.view := by
  have effect := Kernel.exec_core step
  obtain ⟨tag, command, euid, ts, index, awakened, pc⟩ := f
  cases pc
  case destroy pc =>
    obtain ⟨next, -, rfl⟩ := Kernel.exec_map_eq_some step
    simp only [tagCtl, Op.effect_map, tsDestroyCharDeviceFile_effect] at effect
    rw [effect]
    cases next <;> exact .stay (.removing ts tag)
  case find pc =>
    obtain ⟨next, -, rfl⟩ := Kernel.exec_map_eq_some step
    simp only [tagCtl, Op.effect_map, findFirstEntryAvailable_effect] at effect
    rw [effect]
    cases next <;> exact .stay (.unlinked ts)
  all_goals
    simp only [tagCtl, Kernel.exec, Option.some.injEq, Prod.mk.injEq,
      Option.ite_none_left_eq_some] at step
    simp only [tagCtl, Op.effect, Write.counts, Bool.false_eq_true, if_false] at effect
    rw [effect]
  case unlink => obtain ⟨-, rfl⟩ := step; exact .unlink
  case incRemaining => obtain ⟨-, rfl⟩ := step; exact .stay (.unlinked ts)
  case kfree => obtain ⟨-, rfl⟩ := step; exact .kfree
  case destroyIndex => obtain ⟨-, rfl⟩ := step; exact .stay (.removing ts tag)
  case busy => obtain ⟨-, rfl⟩ := step; exact .stay .outside
  case ret r => obtain ⟨-, rfl⟩ := step; exact .stay .outside
  case entry =>
    obtain ⟨-, rfl⟩ := step
    rcases Decidable.em (index = tag) with rfl | other
    · split
      · next valid =>
          simp only [CtlFrame.at_, Frame.view, CtlFrame.view, CtlFrame.place, if_true, true_and,
            if_pos valid.2]
          exact .stay .outside
      · simp only [CtlFrame.at_, Frame.view, CtlFrame.view, if_true]
        exact .stay .outside
    · simp only [CtlFrame.view, if_neg other]
      exact .lost
  all_goals
    rcases Decidable.em (index = tag ∧ (command = REMOVE_TAG ∨ command = AWAKE_ALL)) with
      own | other
    rotate_left
    · simp only [CtlFrame.view, if_neg other]
      exact .lost
    obtain ⟨rfl, valid⟩ := own
    simp only [CtlFrame.view, CtlFrame.place, true_and, if_pos valid]
  case lock =>
    obtain ⟨free, -, rfl⟩ := step
    simp only [CtlFrame.at_, Frame.view, CtlFrame.view, CtlFrame.place, true_and, if_pos valid]
    exact .acquire (by simpa using free)
  all_goals obtain ⟨-, rfl⟩ := step
  case load =>
    cases found : k.tsm.allTagServices index with
    | none => exact .stay .outside
    | some s =>
        simp only [CtlFrame.at_, Frame.view, CtlFrame.view, CtlFrame.place, true_and,
          if_pos valid]
        exact .find found
  case index => exact .reload (.inl rfl) rfl valid (.stay _)
  case lazyDeleted =>
    split <;>
      simp only [CtlFrame.at_, Frame.view, CtlFrame.view, CtlFrame.place, true_and, if_pos valid]
    · exact .stay _
    · next alive => exact .pass (by simpa using alive)
  case permission =>
    (repeat' split) <;>
      simp only [CtlFrame.at_, Frame.view, CtlFrame.view, CtlFrame.place, true_and, if_pos valid]
    · exact .back
    · exact .stay _
    · exact .stay _
    · next noRemove noAwake => exact (valid.elim noRemove noAwake).elim
  case waiters =>
    split <;>
      simp only [CtlFrame.at_, Frame.view, CtlFrame.view, CtlFrame.place, true_and, if_pos valid]
    · exact .back
    · exact .stay _
  case unlockIndex after =>
    cases after
    · exact .reload (.inr (.inl rfl)) rfl valid (.yield (.inl rfl))
    · exact .reload (.inr (.inl rfl)) rfl valid (.yield (.inl rfl))
    · exact .reload (.inr (.inr rfl)) rfl valid (.stay _)
  case unlock after =>
    cases after
    · exact .release
    · exact .release
    · exact .abandon
  case wakeUp =>
    split <;>
      simp only [CtlFrame.at_, Frame.view, CtlFrame.view, CtlFrame.place, true_and,
        if_pos valid] <;>
      exact .stay _
  case callRcu => exact .deferAwake
  all_goals
    simp only [CtlFrame.at_, Frame.view, CtlFrame.view, CtlFrame.place, true_and, if_pos valid]
  case delete => exact .delete
  case awakened => exact .stay _
  case request => exact .request
  case reset => exact .reset

theorem tagReceive_move {t : τ} {f : ReceiveFrame}
    (step : k.exec external (tagReceive t f) = some (k', frame))
    : Move k.core .outside k'.core frame.view := by
  rw [Kernel.exec_core step, tagReceive_effect]
  have outside : frame.view = .outside := by
    obtain ⟨tag, level, buffer, size, euid, ts, realSize, interrupted, copied, pc⟩ := f
    cases pc
    case entered pc =>
      obtain ⟨next, -, rfl⟩ := Kernel.exec_map_eq_some step
      cases next <;> rfl
    case left x pc =>
      obtain ⟨next, -, rfl⟩ := Kernel.exec_map_eq_some step
      cases next
      · rfl
      · dsimp only
        split <;> rfl
    all_goals
      simp only [tagReceive, Kernel.exec, Option.some.injEq, Prod.mk.injEq,
        Option.ite_none_left_eq_some] at step
    case sleep => obtain ⟨-, -, rfl⟩ := step; rfl
    all_goals
      obtain ⟨-, rfl⟩ := step
      (repeat' split) <;> rfl
  rw [outside]
  exact .stay .outside

-----------------------------------------------------------------------------------------
-- The steps of the callbacks
-----------------------------------------------------------------------------------------

/-- A callback that still owes its mutex makes a callback move. -/
theorem callback_move {b : Callback τ} {n : Nat} {next : Option (Callback τ)}
    (ready : k.rcu.ready? n = some b) (owes : b.owes = true)
    (step : k.exec external b.op = some (k', next))
    : ∃ m, CallbackMove k.core m { k' with rcu := k'.rcu.advance n next }.core := by
  have same := rcu_of_softirq step
  obtain ⟨m, here, goesOn, leaves⟩ := k.rcu.among_advance ready owes
  have advanced {callbacks : List (Callback τ)}
      (among : (k.rcu.advance n next).among Callback.owes = callbacks)
      : { k' with rcu := k'.rcu.advance n next }.core
        = { b.op.effect k.core with callbacks := callbacks } := by
    rw [← Kernel.exec_core step, Kernel.core, Kernel.core, same, among]
  obtain ⟨job, s, stage, caller⟩ := b
  refine ⟨m, ?_⟩
  cases job <;> cases stage
  all_goals
    simp only [Callback.op, Kernel.exec, Option.some.injEq, Prod.mk.injEq] at step
    obtain ⟨-, rfl⟩ := step
    first | exact absurd owes Bool.false_ne_true | skip
  case freeAfterSend.clear => rw [advanced (goesOn _ rfl)]; exact .notReady here
  case freeAfterSend.zero => rw [advanced (goesOn _ rfl)]; exact .wipe here
  case freeAfterSend.tag => rw [advanced (goesOn _ rfl)]; exact .levelTag here
  case freeAfterSend.unlock => rw [advanced (leaves _ rfl)]; exact .unlock here
  case resetAwakeCondition.clear => rw [advanced (goesOn _ rfl)]; exact .reset here
  case resetAwakeCondition.zero => rw [advanced (goesOn _ rfl)]; exact .skip here
  case resetAwakeCondition.tag => rw [advanced (goesOn _ rfl)]; exact .serviceTag here
  case resetAwakeCondition.unlock => rw [advanced (leaves _ rfl)]; exact .unlock here

/-- The message that a callback prints at its end is no part of the protocol. -/
theorem core_of_print {b : Callback τ} {n : Nat} {next : Option (Callback τ)}
    (ready : k.rcu.ready? n = some b) (done : b.owes = false)
    (step : k.exec external b.op = some (k', next))
    : { k' with rcu := k'.rcu.advance n next }.core = k.core := by
  have same := rcu_of_softirq step
  have left := k.rcu.among_advance_none ready done
  obtain ⟨job, s, stage, caller⟩ := b
  cases stage <;> first | exact absurd done Bool.true_eq_false.mp | skip
  have effect : (Callback.op ⟨job, s, .print, caller⟩).effect k.core = k.core := by
    cases job <;> rfl
  have done : next = none := by
    cases job <;> exact (Prod.mk.inj (Option.some.inj step)).2.symm
  have core : k'.core = k.core := (Kernel.exec_core step).trans effect
  calc
    { k' with rcu := k'.rcu.advance n next }.core
      = { k'.core with callbacks := (k.rcu.advance n none).among Callback.owes } := by
          rw [done, same]
          rfl
    _ = k.core := by
          rw [core, left]
          rfl

-----------------------------------------------------------------------------------------
-- The runs
-----------------------------------------------------------------------------------------

def State.view (st : State τ) (t : τ) : View := (st.thread t).frame.view

omit [DecidableEq τ] in
/-- The state that `start` leaves is safe. -/
theorem safe_start : Safe (State.start : State τ).kernel.core State.start.view where
  excl := {
    held := fun i => by
      simp [State.start, Kernel.core, State.view, Frame.view, View.lock, Rcu.among, Rcu.callbacks]
    one := fun h => by simp [State.start, State.view, Frame.view, View.lock] at h
    apart := fun h => by simp [State.start, State.view, Frame.view, View.lock] at h
    once := by simp [State.start, Kernel.core, Rcu.among, Rcu.callbacks]
  }
  slots := by simp [State.start]
  fact _ := trivial
  unborn _ := rfl
  remover h := by simp [State.start, State.view, Frame.view, View.removes] at h
  callback := by simp [State.start, Kernel.core, Rcu.among, Rcu.callbacks]
  ready _ h := absurd h Bool.false_ne_true
  awake _ h := absurd h Bool.false_ne_true
  bytes _ _ h := absurd rfl h

/-- The allocator gives out again only what nobody points to. -/
def ReuseUnseen (st : State τ) : Event τ → Prop
  | .reuse s _ =>
      (∀ t, (st.view t).service ≠ some s)
      ∧ ∀ b ∈ st.kernel.rcu.among Callback.owes, b.service ≠ s
  | _ => True

omit [DecidableEq τ] in
theorem NoReuse.unseen {e : Event τ} (noReuse : NoReuse e) (st : State τ) : ReuseUnseen st e := by
  cases e <;> trivial

theorem view_setThread (st : State τ) (t : τ) (th : Thread)
    : (st.setThread t th).view = Function.update st.view t th.frame.view := by
  funext u
  rcases eq_or_ne u t with rfl | other
  · simp [State.view, State.setThread]
  · simp [State.view, State.setThread, Function.update_of_ne other]

/-- Every event is a move of one system call, a move of a callback, nothing the protocol
sees, or a reuse of freed memory.
-/
theorem move_of_step {st st' : State τ} {e : Event τ} (step : st.step e = some st')
    : (∃ t v', Move st.kernel.core (st.view t) st'.kernel.core v'
        ∧ st'.view = Function.update st.view t v')
      ∨ (∃ n, CallbackMove st.kernel.core n st'.kernel.core ∧ st'.view = st.view)
      ∨ (st'.kernel.core = st.kernel.core ∧ st'.view = st.view)
      ∨ ∃ s ts, e = .reuse s ts ∧ st.kernel.freed s = true
          ∧ st'.kernel.core = st.kernel.core.reuse s ts.flags ∧ st'.view = st.view := by
  cases State.steps_of_step step with
  | @call t euid c last user =>
      refine .inl ⟨t, _, ?_, view_setThread _ _ _⟩
      rw [State.view, user]
      cases c with
      | tagCtl tag command =>
          simp only [Syscall.enter, Frame.view, CtlFrame.view, if_true]
          exact .stay .outside
      | _ => exact .stay .outside
  | @run t external k frame exec =>
      refine .inl ⟨t, _, ?_, view_setThread _ _ _⟩
      simp only [State.op, State.view] at exec ⊢
      cases here : (st.thread t).frame with
      | user last => simp [here, Frame.op, Kernel.exec] at exec
      | get f => exact tagGet_move (by rwa [here] at exec)
      | send f => exact tagSend_move (by rwa [here] at exec)
      | ctl f => exact tagCtl_move (by rwa [here] at exec)
      | receive f => exact tagReceive_move (by rwa [here] at exec)
  | @softirq n b k next ready exec =>
      cases owes : b.owes with
      | true =>
          obtain ⟨m, move⟩ := callback_move ready owes exec
          exact .inr (.inl ⟨m, move, rfl⟩)
      | false => exact .inr (.inr (.inl ⟨core_of_print ready owes exec, rfl⟩))
  | signal busy => exact .inr (.inr (.inl ⟨rfl, rfl⟩))
  | @reuse s ts freed =>
      refine .inr (.inr (.inr ⟨s, ts, rfl, freed, ?_, rfl⟩))
      simp only [Kernel.core, Core.reuse]
      congr 1
      funext r
      rcases eq_or_ne r s with rfl | other
      · simp
      · simp [Function.update_of_ne other]

/-- Every event keeps the protocol's invariant. -/
theorem safe_step {st st' : State τ} {e : Event τ} (x : Safe st.kernel.core st.view)
    (unseen : ReuseUnseen st e) (step : st.step e = some st')
    : Safe st'.kernel.core st'.view := by
  rcases move_of_step step with ⟨t, v', move, view⟩ | ⟨n, move, view⟩ | ⟨core, view⟩
    | ⟨s, ts, rfl, freed, core, view⟩
  · rw [view]
    exact x.move move
  · rw [view]
    exact x.callbackMove move
  · rwa [core, view]
  · rw [core, view]
    exact x.reuse ts.flags freed unseen.1 unseen.2

/-- Along every run that gives out again only what nobody points to, the protocol's
invariant holds.
-/
theorem safe_run {G : Guard (State τ) (Event τ)} {h : History (State τ) (Event τ)} {st : State τ}
    (unseen : ∀ {h st e}, G h st e → ReuseUnseen st e) (run : (machine τ).Run G h st)
    : Safe st.kernel.core st.view :=
  run.invariant (P := fun _ st => Safe st.kernel.core st.view) safe_start
    (fun _ x ok step => safe_step x (unseen ok) step)

end TagExchange
