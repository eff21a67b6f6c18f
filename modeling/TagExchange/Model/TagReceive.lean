import TagExchange.Model.Routines

/-! `sys_tag_receive`, with `wait_event_interruptible` written out: the condition is
tested once at first, then after every `prepare_to_wait`, and the thread sleeps between
two tests until it has been woken or has got a signal.
-/

namespace TagExchange

variable {τ : Type}

namespace ReceiveFrame

def at_ (f : ReceiveFrame) (pc : ReceivePc) : Frame := .receive { f with pc := pc }

/-- The receiver's limit: `size`, reduced to `MAX_MESSAGE_SIZE - 1`. -/
def limit (f : ReceiveFrame) : Nat :=
  if f.size ≥ MAX_MESSAGE_SIZE - 1 then MAX_MESSAGE_SIZE - 1 else f.size

end ReceiveFrame

/-- The value returned on each way out of the wait. -/
def Exit.result : Exit → Int
  | .signal => -EINTR
  | .awake => -EINTR
  | .message => 0

def tagReceive (t : τ) (f : ReceiveFrame) : Op τ Frame :=
  match f.pc with
  | .entry =>
      .tryModuleGet <|
        if f.tag < 0 ∨ f.tag > MAX_TAG_SERVICES - 1 then f.at_ (.ret (-EINVAL))
        else if f.level < 0 ∨ f.level ≥ MAX_LEVELS then f.at_ (.ret (-EINVAL))
        else f.at_ .load
  | .load =>
      .loadSlot f.tag fun
        | none => f.at_ (.ret (-EBADF))
        | some s => { f with ts := s }.at_ .lazyDeleted
  | .lazyDeleted =>
      .load f.ts fun ts => if ts.lazyDeleted then f.at_ (.ret (-EBADF)) else f.at_ .permission
  | .permission =>
      .load f.ts fun ts =>
        if ts.denies f.euid ∨ f.buffer = false then f.at_ (.ret (-EACCES))
        else { f with realSize := f.limit }.at_ .incCount
  | .incCount => .store f.ts .incCount (f.at_ .incLevel)
  | .incLevel => .store f.ts (.incLevel f.level) (f.at_ (.entered .check))
  | .entered pc =>
      (updateChrdev f.tag f.level pc).map fun
        | .go pc => f.at_ (.entered pc)
        | .back _ => f.at_ .firstReady
  -- wait_event_interruptible
  | .firstReady =>
      .loadLevel f.ts f.level fun v =>
        if v.messageReady then f.at_ .rcuLock else f.at_ .firstAwake
  | .firstAwake =>
      .load f.ts fun ts => if ts.awakeRequest then f.at_ .rcuLock else f.at_ .prepare
  | .prepare =>
      .prepareToWait t fun interrupted => { f with interrupted := interrupted }.at_ .testReady
  | .testReady =>
      .loadLevel f.ts f.level fun v =>
        if v.messageReady then f.at_ .finish else f.at_ .testAwake
  | .testAwake =>
      .load f.ts fun ts =>
        if ts.awakeRequest ∨ f.interrupted then f.at_ .finish else f.at_ .sleep
  | .sleep => .schedule t (f.at_ .prepare)
  | .finish => .finishWait t (f.at_ .rcuLock)
  -- the read-side section
  | .rcuLock => .rcuReadLock t (f.at_ .signal)
  | .signal =>
      .signalPending t fun pending => if pending then f.at_ (.rcuUnlock .signal) else f.at_ .ready
  | .ready =>
      .loadLevel f.ts f.level fun v =>
        if v.messageReady then f.at_ .size else f.at_ (.rcuUnlock .awake)
  | .size =>
      .loadLevel f.ts f.level fun v => { f with realSize := min v.size f.realSize }.at_ .copy
  | .copy =>
      .copyToUser f.ts f.level f.realSize fun bytes =>
        { f with copied := bytes }.at_ (.rcuUnlock .message)
  | .rcuUnlock x => .rcuReadUnlock t (f.at_ (.decCount x))
  | .decCount x => .store f.ts .decCount (f.at_ (.decLevel x))
  | .decLevel x => .store f.ts (.decLevel f.level) (f.at_ (.left x .check))
  | .left x pc =>
      (updateChrdev f.tag f.level pc).map fun
        | .go pc => f.at_ (.left x pc)
        | .back _ => if x = .awake then f.at_ .print else f.at_ (.ret x.result)
  -- The message printed after an AWAKE_ALL shows the counter of the service.
  | .print => .load f.ts fun _ => f.at_ (.ret Exit.awake.result)
  | .ret r => .leave t true (.user (some r))

end TagExchange
