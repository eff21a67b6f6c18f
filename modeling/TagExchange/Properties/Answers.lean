import TagExchange.Properties.RegistryRefinement

/-! What the four system calls are for: the answers that a registry of tags gives to a call, when
the whole call happens at one moment.
-/

namespace TagExchange

open Concurrency Naming

variable {τ : Type}

deriving instance DecidableEq for Syscall

/-- The arguments that a call accepts; `tag_send` and `tag_ctl` let the tag `MAX_TAG_SERVICES` through. -/
def Syscall.Valid : Syscall → Prop
  | tagGet _ command permission =>
      (permission = EVERYONE ∨ permission = ONLY_OWNER)
      ∧ (command = CREATE_TAG ∨ command = OPEN_TAG)
  | tagSend tag level _ _ => ¬ (tag < 0 ∨ tag > MAX_TAG_SERVICES) ∧ ¬ (level < 0 ∨ level ≥ MAX_LEVELS)
  | tagReceive tag level _ _ =>
      ¬ (tag < 0 ∨ tag > MAX_TAG_SERVICES - 1) ∧ ¬ (level < 0 ∨ level ≥ MAX_LEVELS)
  | tagCtl tag command =>
      ¬ (tag < 0 ∨ tag > MAX_TAG_SERVICES) ∧ (command = REMOVE_TAG ∨ command = AWAKE_ALL)

/-- The value that `tag_send` returns for a message it has taken. -/
def sendResult (size : Nat) : Int :=
  if size > MAX_MESSAGE_SIZE - 1 then -EMSGSIZE else 0

/-- What a call with valid arguments answers in this state of the registry, and the change that it
makes.
-/
inductive Outcome (r : Int → Entry Registration) (euid : Int)
    : Option (Change Int Registration Int) → Syscall → Int → Prop
  -- CREATE_TAG
  | created {key permission i} (hashed : key ≠ IPC_PRIVATE → i = hashFunction key)
    (free : r i = .free)
    : Outcome r euid (some (.enter i ⟨storedKey key, permission, euid⟩))
        (.tagGet key CREATE_TAG permission) i
  | taken {key permission i} (hashed : key ≠ IPC_PRIVATE → i = hashFunction key)
    (taken : r i ≠ .free)
    : Outcome r euid none (.tagGet key CREATE_TAG permission) (-ENOKEY)
  | noMemory {key permission v} (error : v = -EFAULT ∨ v = -ENOMEM)
    : Outcome r euid none (.tagGet key CREATE_TAG permission) v
  -- OPEN_TAG
  | opened {key permission s} (named : key ≠ IPC_PRIVATE) (live : r (hashFunction key) = .live s)
    (admitted : s.admits euid = true)
    : Outcome r euid none (.tagGet key OPEN_TAG permission) (hashFunction key)
  | openDenied {key permission s} (named : key ≠ IPC_PRIVATE)
    (live : r (hashFunction key) = .live s) (denied : s.admits euid = false)
    : Outcome r euid none (.tagGet key OPEN_TAG permission) (-EACCES)
  | unknown {key permission} (absent : key = IPC_PRIVATE ∨ ∀ s, r (hashFunction key) ≠ .live s)
    : Outcome r euid none (.tagGet key OPEN_TAG permission) (-EBADR)
  -- tag_send
  | sent {i l buffer size s} (live : r i = .live s) (admitted : s.admits euid = true)
    : Outcome r euid none (.tagSend i l buffer size) (sendResult size)
  | sendDenied {i l buffer size s} (live : r i = .live s) (denied : s.admits euid = false)
    : Outcome r euid none (.tagSend i l buffer size) (-EACCES)
  | notSent {i l buffer size} (absent : ∀ s, r i ≠ .live s)
    : Outcome r euid none (.tagSend i l buffer size) (-EBADF)
  -- tag_receive
  | received {i l size s} (x : Exit) (live : r i = .live s) (admitted : s.admits euid = true)
    : Outcome r euid none (.tagReceive i l true size) x.result
  | receiveDenied {i l buffer size s} (live : r i = .live s)
    (denied : s.admits euid = false ∨ buffer = false)
    : Outcome r euid none (.tagReceive i l buffer size) (-EACCES)
  | notReceived {i l buffer size} (absent : ∀ s, r i ≠ .live s)
    : Outcome r euid none (.tagReceive i l buffer size) (-EBADF)
  -- tag_ctl
  | removed {i s} (live : r i = .live s) (admitted : s.admits euid = true)
    : Outcome r euid (some (.condemn i euid)) (.tagCtl i REMOVE_TAG) SUCCESS
  | attended {i s} (live : r i = .live s) (admitted : s.admits euid = true)
    : Outcome r euid none (.tagCtl i REMOVE_TAG) (-EBUSY)
  | awoken {i s} (live : r i = .live s) (admitted : s.admits euid = true)
    : Outcome r euid none (.tagCtl i AWAKE_ALL) SUCCESS
  | ctlDenied {i command s} (live : r i = .live s) (denied : s.admits euid = false)
    : Outcome r euid none (.tagCtl i command) (-EACCES)
  -- A service that is being removed counts as removed.
  | ctlDying {i command s} (dying : r i = .dying s)
    : Outcome r euid none (.tagCtl i command) SUCCESS
  | ctlAbsent {i command} (free : r i = .free)
    : Outcome r euid none (.tagCtl i command) (-EBADF)

/-- What a call answers in this state of the registry: invalid arguments are refused. -/
def Answers (r : Int → Entry Registration) (euid : Int)
    (change : Option (Change Int Registration Int)) (c : Syscall) (v : Int) : Prop :=
  (c.Valid ∧ Outcome r euid change c v) ∨ (¬ c.Valid ∧ change = none ∧ v = -EINVAL)

-----------------------------------------------------------------------------------------
-- Calls and their frames
-----------------------------------------------------------------------------------------

/-- The call that a frame belongs to, and its effective user. -/
def Frame.syscall : Frame → Option (Int × Syscall)
  | user _ => none
  | get f => some (f.euid, .tagGet f.key f.command f.permission)
  | send f => some (f.euid, .tagSend f.tag f.level f.buffer f.size)
  | receive f => some (f.euid, .tagReceive f.tag f.level f.buffer f.size)
  | ctl f => some (f.euid, .tagCtl f.tag f.command)

theorem Frame.syscall_of_sameCall {before after : Frame} (same : before.SameCall after)
    (busy : after.idle = false)
    : after.syscall = before.syscall := by
  cases before with
  | user last => cases after <;> first | cases busy; done | cases same
  | get f =>
      cases after with
      | get f' =>
          obtain ⟨key, command, permission, euid⟩ := same
          simp only [Frame.syscall, key, command, permission, euid]
      | _ => first | cases busy; done | cases same
  | send f =>
      cases after with
      | send f' =>
          obtain ⟨tag, level, buffer, size, euid⟩ := same
          simp only [Frame.syscall, tag, level, buffer, size, euid]
      | _ => first | cases busy; done | cases same
  | receive f =>
      cases after with
      | receive f' =>
          obtain ⟨tag, level, buffer, size, euid⟩ := same
          simp only [Frame.syscall, tag, level, buffer, size, euid]
      | _ => first | cases busy; done | cases same
  | ctl f =>
      cases after with
      | ctl f' =>
          obtain ⟨tag, command, euid⟩ := same
          simp only [Frame.syscall, tag, command, euid]
      | _ => first | cases busy; done | cases same

/-- The change of the registry that the thread itself makes in this event. -/
def State.changeBy [DecidableEq τ] (st : State τ) (t : τ)
    : Event τ → Option (Change Int Registration Int)
  | .run u _ => if u = t then (st.thread t).frame.change else none
  | _ => none

theorem State.changeBy_run [DecidableEq τ] (st : State τ) (t : τ) (external : Nat)
    : st.changeBy t (.run t external) = (st.thread t).frame.change :=
  if_pos rfl

-----------------------------------------------------------------------------------------
-- How far a call has come
-----------------------------------------------------------------------------------------

/-- The value that a call will return, once it is settled. -/
def Frame.settled : Frame → Option Int
  | user _ => none
  | get f =>
      match f.pc with
      | .unlockCreated | .decRemaining | .device _ | .print => some f.tag
      | .unlockDenied | .denied => some (-EACCES)
      | .unlock r | .ret r => some r
      | _ => none
  | send f =>
      match f.pc with
      | .memcpy | .terminator | .size | .ready | .waiters | .wakeUp | .callRcu | .notReady
      | .memset => some (sendResult f.size)
      | .unlock r | .freePage r | .ret r _ => some r
      | _ => none
  | receive f =>
      match f.pc with
      | .rcuUnlock x | .decCount x | .decLevel x | .left x _ => some x.result
      | .print => some Exit.awake.result
      | .ret r => some r
      | _ => none
  | ctl f =>
      match f.pc with
      | .unlockIndex (.ret r) | .unlock (.ret r) | .ret r => some r
      | .unlockIndex .busy | .unlock .busy | .busy => some (-EBUSY)
      | .unlockIndex .destroy | .unlock .destroy | .destroyIndex | .destroy _ | .unlink | .find _
      | .incRemaining | .kfree | .awakened | .request | .wakeUp | .callRcu | .reset => some SUCCESS
      | _ => none

/-- The slot and the service that a call has loaded, and has still to test for `lazy_deleted`. -/
def Frame.tests : Frame → Option (Int × Ref)
  | user _ => none
  | get f =>
      match f.pc with
      | .lazyDeleted => some (f.tag, f.ts)
      | _ => none
  | send f =>
      match f.pc with
      | .lock | .lazyDeleted => some (f.tag, f.ts)
      | _ => none
  | receive f =>
      match f.pc with
      | .lazyDeleted => some (f.tag, f.ts)
      | _ => none
  | ctl f =>
      match f.pc with
      | .index | .lock | .lazyDeleted => some (f.tag, f.ts)
      | _ => none

/-- The slot and the service that a call has found alive, as long as it is not settled. -/
def Frame.alive : Frame → Option (Int × Ref)
  | user _ => none
  | get f =>
      match f.pc with
      | .permission => some (f.tag, f.ts)
      | _ => none
  | send f =>
      match f.pc with
      | .permission => some (f.tag, f.ts)
      | _ => none
  | receive f =>
      match f.pc with
      | .permission | .incCount | .incLevel | .entered _ | .firstReady | .firstAwake | .prepare
      | .testReady | .testAwake | .sleep | .finish | .rcuLock | .signal | .ready | .size | .copy =>
          some (f.tag, f.ts)
      | _ => none
  | ctl f =>
      match f.pc with
      | .permission | .waiters | .delete => some (f.tag, f.ts)
      | _ => none

/-- What the program point of a call that is not settled says about its arguments. -/
def Frame.OnCourse : Frame → Prop
  | user _ => True
  | get f =>
      match f.pc with
      | .find _ => f.ValidArguments ∧ f.key = IPC_PRIVATE
      | .lock => f.ValidArguments ∧ (f.key ≠ IPC_PRIVATE → f.tag = hashFunction f.key)
      | .available | .kzalloc | .fields | .publish =>
          f.ValidArguments ∧ (f.key ≠ IPC_PRIVATE → f.tag = hashFunction f.key)
          ∧ f.command = CREATE_TAG
      | .opened =>
          f.ValidArguments ∧ (f.key ≠ IPC_PRIVATE → f.tag = hashFunction f.key)
          ∧ f.command = OPEN_TAG
      | .loadOpened | .lazyDeleted | .permission =>
          f.ValidArguments ∧ f.tag = hashFunction f.key ∧ f.command = OPEN_TAG
          ∧ f.key ≠ IPC_PRIVATE
      | _ => True
  | send f =>
      match f.pc with
      | .getPage | .copyFromUser | .load | .lock | .lazyDeleted | .permission =>
          (Syscall.tagSend f.tag f.level f.buffer f.size).Valid
      | _ => True
  | receive f =>
      match f.pc with
      | .load | .lazyDeleted | .permission =>
          (Syscall.tagReceive f.tag f.level f.buffer f.size).Valid
      | .incCount | .incLevel | .entered _ | .firstReady | .firstAwake | .prepare | .testReady
      | .testAwake | .sleep | .finish | .rcuLock | .signal | .ready | .size | .copy =>
          (Syscall.tagReceive f.tag f.level f.buffer f.size).Valid ∧ f.buffer = true
      | _ => True
  | ctl f =>
      match f.pc with
      | .load | .index | .lock | .lazyDeleted | .permission => f.ValidArguments
      | .waiters | .delete => f.ValidArguments ∧ f.command = REMOVE_TAG
      | _ => True

theorem tests_mem_pointers {frame : Frame} {i : Int} {s : Ref} (tests : frame.tests = some (i, s))
    : s ∈ frame.pointers := by
  cases frame with
  | user last => cases tests
  | get f =>
      obtain ⟨key, command, permission, euid, tag, ts, pc⟩ := f
      cases pc <;> cases tests
      exact List.mem_singleton_self _
  | send f =>
      obtain ⟨tag, level, buffer, size, euid, realSize, stored, ts, pc⟩ := f
      cases pc <;> cases tests
      all_goals exact List.mem_singleton_self _
  | receive f =>
      obtain ⟨tag, level, buffer, size, euid, ts, realSize, interrupted, copied, pc⟩ := f
      cases pc <;> cases tests
      exact List.mem_singleton_self _
  | ctl f =>
      obtain ⟨tag, command, euid, ts, index, awakened, pc⟩ := f
      cases pc <;> cases tests
      all_goals exact List.mem_singleton_self _

theorem alive_mem_pointers {frame : Frame} {i : Int} {s : Ref} (alive : frame.alive = some (i, s))
    : s ∈ frame.pointers := by
  cases frame with
  | user last => cases alive
  | get f =>
      obtain ⟨key, command, permission, euid, tag, ts, pc⟩ := f
      cases pc <;> cases alive
      exact List.mem_singleton_self _
  | send f =>
      obtain ⟨tag, level, buffer, size, euid, realSize, stored, ts, pc⟩ := f
      cases pc <;> cases alive
      exact List.mem_singleton_self _
  | receive f =>
      obtain ⟨tag, level, buffer, size, euid, ts, realSize, interrupted, copied, pc⟩ := f
      cases pc <;> cases alive
      all_goals first | exact List.mem_singleton_self _ | exact List.mem_cons_self ..
  | ctl f =>
      obtain ⟨tag, command, euid, ts, index, awakened, pc⟩ := f
      cases pc <;> cases alive
      all_goals exact List.mem_singleton_self _

end TagExchange
