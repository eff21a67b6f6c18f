import TagExchange.Model.Routines

/-! `sys_tag_send`. -/

namespace TagExchange

variable {τ : Type}

/-- `strlen` of the user's buffer: the bytes before the first zero. -/
def strlen (buffer : List UInt8) : Nat :=
  (buffer.takeWhile (· ≠ 0)).length

namespace SendFrame

def at_ (f : SendFrame) (pc : SendPc) : Frame := .send { f with pc := pc }

/-- The byte of the user's buffer at an index, in the zeroed intermediate page. -/
def byte (f : SendFrame) (i : Nat) : UInt8 := f.buffer.getD i 0

/-- The number of bytes `tag_send` asks `copy_from_user` for. -/
def requested (f : SendFrame) : Nat :=
  if f.size > MAX_MESSAGE_SIZE - 1 then MAX_MESSAGE_SIZE - 1 else strlen f.buffer + 1

/-- The value returned after the message has been handed over. -/
def result (f : SendFrame) : Int :=
  if f.size > MAX_MESSAGE_SIZE - 1 then -EMSGSIZE else 0

end SendFrame

def tagSend (c : CallId τ) (f : SendFrame) : Op τ Frame :=
  match f.pc with
  | .entry =>
      .tryModuleGet <|
        -- The first check lets `MAX_TAG_SERVICES` through and returns without `module_put`.
        if f.tag < 0 ∨ f.tag > MAX_TAG_SERVICES then f.at_ (.ret (-EINVAL) false)
        else if f.level < 0 ∨ f.level ≥ MAX_LEVELS then f.at_ (.ret (-EINVAL) true)
        else f.at_ .getPage
  -- Without a page the bytes go through the NULL pointer.
  | .getPage =>
      .getZeroedPage ({ f with realSize := f.requested }.at_ .copyFromUser) (f.at_ (.oops false))
  | .copyFromUser =>
      .external fun notCopied =>
        if notCopied ≤ f.realSize
        then some ({ f with stored := f.realSize - notCopied }.at_ .load)
        -- `strlen` has come to memory that is not mapped.
        else if f.size ≤ MAX_MESSAGE_SIZE - 1 then some (f.at_ (.oops true))
        else none
  | .load =>
      .loadSlot f.tag fun
        | none => f.at_ (.freePage (-EBADF))
        | some s => { f with ts := s }.at_ .lock
  | .lock => .mutexLock f.tag (f.at_ .lazyDeleted)
  | .lazyDeleted =>
      .load f.ts fun ts =>
        if ts.lazyDeleted then f.at_ (.unlock (-EBADF)) else f.at_ .permission
  | .permission =>
      .load f.ts fun ts =>
        if ts.denies f.euid then f.at_ (.unlock (-EACCES)) else f.at_ .memcpy
  | .memcpy => .store f.ts (.memcpy f.level f.stored f.byte) (f.at_ .terminator)
  | .terminator => .store f.ts (.terminator f.level f.stored) (f.at_ .size)
  | .size => .store f.ts (.size f.level f.stored) (f.at_ .ready)
  | .ready => .store f.ts (.messageReady f.level true) (f.at_ .waiters)
  | .waiters =>
      .load f.ts fun ts =>
        if ts.threadWaitingMessageCount > 0 then f.at_ .wakeUp else f.at_ .notReady
  | .wakeUp => .wakeUpAll (f.at_ .callRcu)
  -- The callback releases the mutex.
  | .callRcu =>
      .callRcu ⟨.freeAfterSend f.level, f.ts, .clear, c⟩ (f.at_ (.freePage f.result))
  | .notReady => .store f.ts (.messageReady f.level false) (f.at_ .memset)
  | .memset => .store f.ts (.memset f.level) (f.at_ (.unlock f.result))
  | .unlock r => .mutexUnlock f.tag (f.at_ (.freePage r))
  | .freePage r => .freePages (f.at_ (.ret r true))
  | .ret r put => .leave c.1 put (.user (some r))
  | .oops _ => .oops

end TagExchange
