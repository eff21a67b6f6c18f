import TagExchange.Model.Stores

/-! The moves of `tag_get`, `tag_send` and `tag_ctl`: what each step has found in the shared
state, and where it goes from there.
-/

namespace TagExchange

open Concurrency

variable {τ : Type}

/-- A step of a sender from the program point to the frame. The `f` is its frame before the
step; its own program point is not looked at.
-/
inductive SendMove (k : Kernel τ) (f : SendFrame) : SendPc → Frame → Prop
  | refuse (outside : f.tag < 0 ∨ f.tag > MAX_TAG_SERVICES)
    : SendMove k f .entry (f.at_ (.ret (-EINVAL) false))
  | refuseLevel : SendMove k f .entry (f.at_ (.ret (-EINVAL) true))
  | accept (level : IsLevel f.level) : SendMove k f .entry (f.at_ .getPage)
  | getPage : SendMove k f .getPage ({ f with realSize := f.requested }.at_ .copyFromUser)
  | noPage : SendMove k f .getPage (f.at_ (.oops false))
  | copyFromUser {n} (notCopied : n ≤ f.realSize)
    : SendMove k f .copyFromUser ({ f with stored := f.realSize - n }.at_ .load)
  | unmapped (short : f.size ≤ MAX_MESSAGE_SIZE - 1)
    : SendMove k f .copyFromUser (f.at_ (.oops true))
  | missing (empty : k.tsm.allTagServices f.tag = none)
    : SendMove k f .load (f.at_ (.freePage (-EBADF)))
  | load {s} (found : k.tsm.allTagServices f.tag = some s)
    : SendMove k f .load ({ f with ts := s }.at_ .lock)
  | lock (free : k.tsm.accessLock f.tag = false) : SendMove k f .lock (f.at_ .lazyDeleted)
  | deleted (deleted : (k.service f.ts).lazyDeleted = true)
    : SendMove k f .lazyDeleted (f.at_ (.unlock (-EBADF)))
  | alive (alive : (k.service f.ts).lazyDeleted = false)
    : SendMove k f .lazyDeleted (f.at_ .permission)
  | denied (denied : (k.service f.ts).denies f.euid = true)
    : SendMove k f .permission (f.at_ (.unlock (-EACCES)))
  | permitted (allowed : (k.service f.ts).denies f.euid = false)
    : SendMove k f .permission (f.at_ .memcpy)
  | memcpy : SendMove k f .memcpy (f.at_ .terminator)
  | terminator : SendMove k f .terminator (f.at_ .size)
  | size : SendMove k f .size (f.at_ .ready)
  | ready : SendMove k f .ready (f.at_ .waiters)
  | attended (waiting : 0 < (k.service f.ts).threadWaitingMessageCount)
    : SendMove k f .waiters (f.at_ .wakeUp)
  | unattended (nobody : (k.service f.ts).threadWaitingMessageCount = 0)
    : SendMove k f .waiters (f.at_ .notReady)
  | wakeUp : SendMove k f .wakeUp (f.at_ .callRcu)
  | callRcu : SendMove k f .callRcu (f.at_ (.freePage f.result))
  | notReady : SendMove k f .notReady (f.at_ .memset)
  | memset : SendMove k f .memset (f.at_ (.unlock f.result))
  | unlock {r} : SendMove k f (.unlock r) (f.at_ (.freePage r))
  | freePage {r} : SendMove k f (.freePage r) (f.at_ (.ret r true))
  | leave {r put} : SendMove k f (.ret r put) (.user (some r))

/-- A step of a `tag_get` call, in the same way. -/
inductive GetMove (k : Kernel τ) (f : GetFrame) : GetPc → Frame → Prop
  | refuse : GetMove k f .entry (f.at_ (.ret (-EINVAL)))
  | hash (key : f.key ≠ IPC_PRIVATE)
    : GetMove k f .entry ({ f with tag := hashFunction f.key }.at_ .lock)
  | search (key : f.key = IPC_PRIVATE) : GetMove k f .entry (f.at_ (.find .hint))
  | finding {pc pc'} : GetMove k f (.find pc) (f.at_ (.find pc'))
  | full {pc} : GetMove k f (.find pc) (f.at_ (.ret (-ENOMEM)))
  | found {pc tag} : GetMove k f (.find pc) ({ f with tag := tag }.at_ .lock)
  | lockCreate (free : k.tsm.accessLock f.tag = false) (command : f.command = CREATE_TAG)
    : GetMove k f .lock (f.at_ .available)
  | lockOpen (free : k.tsm.accessLock f.tag = false) (command : f.command = OPEN_TAG)
    : GetMove k f .lock (f.at_ .opened)
  | unknown (free : k.tsm.accessLock f.tag = false) (command : f.command ≠ OPEN_TAG)
    : GetMove k f .lock (f.at_ (.unlock (-ENOSYS)))
  -- CREATE_TAG
  | taken : GetMove k f .available (f.at_ (.unlock (-ENOKEY)))
  | vacant (empty : k.tsm.allTagServices f.tag = none)
    : GetMove k f .available (f.at_ .kzalloc)
  | noMemory {r} (error : r = -EFAULT ∨ r = -ENOMEM)
    : GetMove k f .kzalloc (f.at_ (.unlock r))
  | kzalloc : GetMove k f .kzalloc (f.at_ .fields)
  | fields : GetMove k f .fields ({ f with ts := k.services }.at_ .publish)
  | publish : GetMove k f .publish (f.at_ .unlockCreated)
  | unlockCreated : GetMove k f .unlockCreated (f.at_ .decRemaining)
  | decRemaining : GetMove k f .decRemaining (f.at_ (.device .load))
  | creating {pc pc'} : GetMove k f (.device pc) (f.at_ (.device pc'))
  | created {pc} : GetMove k f (.device pc) (f.at_ .print)
  | print : GetMove k f .print (f.at_ (.ret f.tag))
  -- OPEN_TAG
  | missing (absent : k.tsm.allTagServices f.tag = none ∨ f.key = IPC_PRIVATE)
    : GetMove k f .opened (f.at_ (.unlock (-EBADR)))
  | opened (key : f.key ≠ IPC_PRIVATE) : GetMove k f .opened (f.at_ .loadOpened)
  | loadOpened {s} (found : k.tsm.allTagServices f.tag = some s)
    : GetMove k f .loadOpened ({ f with ts := s }.at_ .lazyDeleted)
  | oops (empty : k.tsm.allTagServices f.tag = none) : GetMove k f .loadOpened (f.at_ .oops)
  | deleted (deleted : (k.service f.ts).lazyDeleted = true)
    : GetMove k f .lazyDeleted (f.at_ (.unlock (-EBADR)))
  | alive (alive : (k.service f.ts).lazyDeleted = false)
    : GetMove k f .lazyDeleted (f.at_ .permission)
  | denied (denied : (k.service f.ts).denies f.euid = true)
    : GetMove k f .permission (f.at_ .unlockDenied)
  | permitted (allowed : (k.service f.ts).denies f.euid = false)
    : GetMove k f .permission (f.at_ (.unlock f.tag))
  | unlockDenied : GetMove k f .unlockDenied (f.at_ .denied)
  | printDenied : GetMove k f .denied (f.at_ (.ret (-EACCES)))
  | unlock {r} : GetMove k f (.unlock r) (f.at_ (.ret r))
  | leave {r} : GetMove k f (.ret r) (.user (some r))

/-- A step of a `tag_ctl` call, in the same way. -/
inductive CtlMove (k : Kernel τ) (f : CtlFrame) : CtlPc → Frame → Prop
  | refuse : CtlMove k f .entry (f.at_ (.ret (-EINVAL)))
  | accept (valid : f.ValidArguments) : CtlMove k f .entry (f.at_ .load)
  | missing (empty : k.tsm.allTagServices f.tag = none) : CtlMove k f .load (f.at_ (.ret (-EBADF)))
  | load {s} (found : k.tsm.allTagServices f.tag = some s)
    : CtlMove k f .load ({ f with ts := s }.at_ .index)
  | index : CtlMove k f .index ({ f with index := (k.service f.ts).tag }.at_ .lock)
  | lock (free : k.tsm.accessLock f.index = false) : CtlMove k f .lock (f.at_ .lazyDeleted)
  | deleted (deleted : (k.service f.ts).lazyDeleted = true)
    : CtlMove k f .lazyDeleted (f.at_ (.unlockIndex (.ret SUCCESS)))
  | alive (alive : (k.service f.ts).lazyDeleted = false)
    : CtlMove k f .lazyDeleted (f.at_ .permission)
  | denied (denied : (k.service f.ts).denies f.euid = true)
    : CtlMove k f .permission (f.at_ (.unlockIndex (.ret (-EACCES))))
  | remove (allowed : (k.service f.ts).denies f.euid = false) (command : f.command = REMOVE_TAG)
    : CtlMove k f .permission (f.at_ .waiters)
  | awake (allowed : (k.service f.ts).denies f.euid = false) (command : f.command = AWAKE_ALL)
    : CtlMove k f .permission (f.at_ .awakened)
  | unknown (allowed : (k.service f.ts).denies f.euid = false)
    : CtlMove k f .permission (f.at_ (.ret (-ENOSYS)))
  -- REMOVE_TAG
  | attended (waiting : 0 < (k.service f.ts).threadWaitingMessageCount)
    : CtlMove k f .waiters (f.at_ (.unlockIndex .busy))
  | unattended (nobody : (k.service f.ts).threadWaitingMessageCount = 0)
    : CtlMove k f .waiters (f.at_ .delete)
  | delete : CtlMove k f .delete (f.at_ (.unlockIndex .destroy))
  | unlockIndex {after}
    : CtlMove k f (.unlockIndex after) ({ f with index := (k.service f.ts).tag }.at_ (.unlock after))
  | unlockRet {r} : CtlMove k f (.unlock (.ret r)) (f.at_ (.ret r))
  | unlockBusy : CtlMove k f (.unlock .busy) (f.at_ .busy)
  | unlockDestroy : CtlMove k f (.unlock .destroy) (f.at_ .destroyIndex)
  | busy : CtlMove k f .busy (f.at_ (.ret (-EBUSY)))
  | destroyIndex
    : CtlMove k f .destroyIndex ({ f with index := (k.service f.ts).tag }.at_ (.destroy .lock))
  | destroying {pc pc'} : CtlMove k f (.destroy pc) (f.at_ (.destroy pc'))
  | destroyed {pc} : CtlMove k f (.destroy pc) (f.at_ .unlink)
  | unlink : CtlMove k f .unlink (f.at_ (.find .hint))
  | finding {pc pc'} : CtlMove k f (.find pc) (f.at_ (.find pc'))
  | found {pc} : CtlMove k f (.find pc) (f.at_ .incRemaining)
  | incRemaining : CtlMove k f .incRemaining (f.at_ .kfree)
  | kfree : CtlMove k f .kfree (f.at_ (.ret SUCCESS))
  -- AWAKE_ALL
  | awakened
    : CtlMove k f .awakened
        ({ f with awakened := (k.service f.ts).threadWaitingMessageCount }.at_ .request)
  | request : CtlMove k f .request (f.at_ .wakeUp)
  | wakeUp (some : 0 < f.awakened) : CtlMove k f .wakeUp (f.at_ .callRcu)
  | wakeUpNobody (nobody : f.awakened = 0) : CtlMove k f .wakeUp (f.at_ .reset)
  | callRcu : CtlMove k f .callRcu (f.at_ (.ret SUCCESS))
  | reset : CtlMove k f .reset (f.at_ (.unlockIndex (.ret SUCCESS)))
  | leave {r} : CtlMove k f (.ret r) (.user (some r))

variable [DecidableEq τ] {k k' : Kernel τ} {external : Nat} {frame : Frame}

/-- What becomes of a sender that asks for its page. -/
theorem page_of_exec {c : CallId τ} {f : SendFrame} (asks : f.pc = .getPage)
    (step : k.exec external (tagSend c f) = some (k', frame))
    : external = 0 ∧ frame = { f with realSize := f.requested }.at_ .copyFromUser
      ∨ external ≠ 0 ∧ frame = f.at_ (.oops false) := by
  simp only [tagSend, asks, Kernel.exec] at step
  split at step
  · next success =>
      obtain ⟨-, rfl⟩ := Prod.mk.inj (Option.some.inj step)
      exact .inl ⟨success, rfl⟩
  · next failed =>
      obtain ⟨-, rfl⟩ := Prod.mk.inj (Option.some.inj step)
      exact .inr ⟨failed, rfl⟩

/-- What becomes of a sender that copies its message. -/
theorem copy_of_exec {c : CallId τ} {f : SendFrame} (copies : f.pc = .copyFromUser)
    (step : k.exec external (tagSend c f) = some (k', frame))
    : external ≤ f.realSize ∧ frame = { f with stored := f.realSize - external }.at_ .load
      ∨ (f.realSize < external ∧ f.size ≤ MAX_MESSAGE_SIZE - 1) ∧ frame = f.at_ (.oops true) := by
  simp only [tagSend, copies, Kernel.exec] at step
  obtain ⟨after, choice, same⟩ := Option.map_eq_some_iff.mp step
  obtain ⟨-, rfl⟩ := Prod.mk.inj same
  split at choice
  · next notCopied => exact .inl ⟨notCopied, (Option.some.inj choice).symm⟩
  · next beyond =>
      obtain ⟨short, same⟩ := Option.ite_none_right_eq_some.mp choice
      exact .inr ⟨⟨Nat.lt_of_not_le beyond, short⟩, (Option.some.inj same).symm⟩

/-- A sender makes one of these moves, by cases on its program point. -/
theorem sendMove_of_exec {c : CallId τ} {f : SendFrame}
    (step : k.exec external (tagSend c f) = some (k', frame))
    : SendMove k f f.pc frame := by
  obtain ⟨tag, level, buffer, size, euid, realSize, stored, ts, pc⟩ := f
  cases pc
  case copyFromUser =>
    obtain ⟨notCopied, rfl⟩ | ⟨⟨-, short⟩, rfl⟩ := copy_of_exec rfl step
    · exact .copyFromUser notCopied
    · exact .unmapped short
  case getPage =>
    obtain ⟨-, rfl⟩ | ⟨-, rfl⟩ := page_of_exec rfl step
    · exact .getPage
    · exact .noPage
  case oops => cases step
  case lock =>
    obtain ⟨free, step⟩ := Option.ite_none_left_eq_some.mp step
    obtain ⟨-, rfl⟩ := Prod.mk.inj (Option.some.inj step)
    exact .lock (by simpa using free)
  all_goals obtain ⟨-, rfl⟩ := Prod.mk.inj (Option.some.inj step)
  case entry =>
    dsimp only
    split
    · next outside => exact .refuse outside
    · split
      · exact .refuseLevel
      · next inside =>
          obtain ⟨low, high⟩ := not_or.mp inside
          exact .accept ⟨Int.not_lt.mp low, Int.not_le.mp high⟩
  case load =>
    cases found : k.tsm.allTagServices tag with
    | none => exact .missing found
    | some s => exact .load found
  case lazyDeleted =>
    dsimp only
    split
    · next deleted => exact .deleted deleted
    · next alive => exact .alive (by simpa using alive)
  case permission =>
    dsimp only
    split
    · next denied => exact .denied denied
    · next allowed => exact .permitted (by simpa using allowed)
  case waiters =>
    dsimp only
    split
    · next waiting => exact .attended waiting
    · next nobody => exact .unattended (Nat.eq_zero_of_not_pos nobody)
  all_goals constructor

/-- So does a `tag_get` call. -/
theorem getMove_of_exec {t : τ} {f : GetFrame}
    (step : k.exec external (tagGet t f) = some (k', frame))
    : GetMove k f f.pc frame := by
  obtain ⟨key, command, permission, euid, tag, ts, pc⟩ := f
  cases pc
  case find pc =>
    obtain ⟨next, -, rfl⟩ := Kernel.exec_map_eq_some step
    cases next with
    | go pc' => exact .finding
    | back found =>
        simp only [GetFrame.found]
        split
        · exact .full
        · exact .found
  case device pc =>
    obtain ⟨next, -, rfl⟩ := Kernel.exec_map_eq_some step
    cases next with
    | go pc' => exact .creating
    | back => exact .created
  case lock =>
    obtain ⟨free, step⟩ := Option.ite_none_left_eq_some.mp step
    obtain ⟨-, rfl⟩ := Prod.mk.inj (Option.some.inj step)
    have free : k.tsm.accessLock tag = false := by simpa using free
    dsimp only
    split
    · next create => exact .lockCreate free create
    · split
      · next opens => exact .lockOpen free opens
      · next other => exact .unknown free other
  case kzalloc =>
    obtain ⟨after, choice, same⟩ := Option.map_eq_some_iff.mp step
    obtain ⟨-, rfl⟩ := Prod.mk.inj same
    dsimp only at choice
    split at choice
    · obtain rfl := Option.some.inj choice
      exact .noMemory (.inl rfl)
    · split at choice
      · obtain rfl := Option.some.inj choice
        exact .noMemory (.inr rfl)
      · obtain rfl := Option.some.inj choice
        exact .kzalloc
  case oops => cases step
  all_goals obtain ⟨-, rfl⟩ := Prod.mk.inj (Option.some.inj step)
  case entry =>
    dsimp only
    split
    · exact .refuse
    · split
      · next key => exact .hash key
      · next key => exact .search (not_not.mp key)
  case available =>
    cases empty : k.tsm.allTagServices tag with
    | none => exact .vacant empty
    | some s => exact .taken
  case opened =>
    dsimp only
    split
    · next both => exact .opened both.2
    · next neither =>
        refine .missing (or_iff_not_imp_right.mpr fun key => ?_)
        cases found : k.tsm.allTagServices tag with
        | none => rfl
        | some s => exact absurd ⟨by rw [found]; rfl, key⟩ neither
  case loadOpened =>
    cases found : k.tsm.allTagServices tag with
    | none => exact .oops found
    | some s => exact .loadOpened found
  case lazyDeleted =>
    dsimp only
    split
    · next deleted => exact .deleted deleted
    · next alive => exact .alive (by simpa using alive)
  case permission =>
    dsimp only
    split
    · next denied => exact .denied denied
    · next allowed => exact .permitted (by simpa using allowed)
  case ret r => exact .leave
  all_goals constructor

/-- So does a `tag_ctl` call. -/
theorem ctlMove_of_exec {c : CallId τ} {f : CtlFrame}
    (step : k.exec external (tagCtl c f) = some (k', frame))
    : CtlMove k f f.pc frame := by
  obtain ⟨tag, command, euid, ts, index, awakened, pc⟩ := f
  cases pc
  case find pc =>
    obtain ⟨next, -, rfl⟩ := Kernel.exec_map_eq_some step
    cases next with
    | go pc' => exact .finding
    | back => exact .found
  case destroy pc =>
    obtain ⟨next, -, rfl⟩ := Kernel.exec_map_eq_some step
    cases next with
    | go pc' => exact .destroying
    | back => exact .destroyed
  case lock =>
    obtain ⟨free, step⟩ := Option.ite_none_left_eq_some.mp step
    obtain ⟨-, rfl⟩ := Prod.mk.inj (Option.some.inj step)
    exact .lock (by simpa using free)
  all_goals obtain ⟨-, rfl⟩ := Prod.mk.inj (Option.some.inj step)
  case entry =>
    dsimp only
    split
    · next valid => exact .accept valid
    · exact .refuse
  case load =>
    cases found : k.tsm.allTagServices tag with
    | none => exact .missing found
    | some s => exact .load found
  case lazyDeleted =>
    dsimp only
    split
    · next deleted => exact .deleted deleted
    · next alive => exact .alive (by simpa using alive)
  case permission =>
    dsimp only
    split
    · next denied => exact .denied denied
    · next allowed =>
        have allowed : (k.service ts).denies euid = false := by simpa using allowed
        split
        · next command => exact .remove allowed command
        · split
          · next command => exact .awake allowed command
          · exact .unknown allowed
  case waiters =>
    dsimp only
    split
    · next waiting => exact .attended waiting
    · next nobody => exact .unattended (Nat.eq_zero_of_not_pos nobody)
  case unlock after =>
    cases after with
    | ret r => exact .unlockRet
    | busy => exact .unlockBusy
    | destroy => exact .unlockDestroy
  case wakeUp =>
    dsimp only
    split
    · next waiting => exact .wakeUp waiting
    · next nobody => exact .wakeUpNobody (Nat.eq_zero_of_not_pos nobody)
  case busy => exact .busy
  case kfree => exact .kfree
  case callRcu => exact .callRcu
  case ret r => exact .leave
  all_goals constructor

end TagExchange
