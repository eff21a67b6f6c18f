import TagExchange.Model.Routines

/-! `sys_tag_ctl`. Each `ts->tag` in the code is a load of its own (`index`,
`unlockIndex`, `destroyIndex`).
-/

namespace TagExchange

variable {τ : Type}

namespace CtlFrame

def at_ (f : CtlFrame) (pc : CtlPc) : Frame := .ctl { f with pc := pc }

/-- The arguments `tag_ctl` accepts; the range check lets `MAX_TAG_SERVICES` through. -/
def ValidArguments (f : CtlFrame) : Prop :=
  ¬ (f.tag < 0 ∨ f.tag > MAX_TAG_SERVICES) ∧ (f.command = REMOVE_TAG ∨ f.command = AWAKE_ALL)

instance (f : CtlFrame) : Decidable f.ValidArguments :=
  inferInstanceAs (Decidable (_ ∧ _))

end CtlFrame

def tagCtl (c : CallId τ) (f : CtlFrame) : Op τ Frame :=
  match f.pc with
  | .entry =>
      .tryModuleGet (if f.ValidArguments then f.at_ .load else f.at_ (.ret (-EINVAL)))
  | .load =>
      .loadSlot f.tag fun
        | none => f.at_ (.ret (-EBADF))
        | some s => { f with ts := s }.at_ .index
  | .index => .load f.ts fun ts => { f with index := ts.tag }.at_ .lock
  | .lock => .mutexLock f.index (f.at_ .lazyDeleted)
  | .lazyDeleted =>
      .load f.ts fun ts =>
        if ts.lazyDeleted then f.at_ (.unlockIndex (.ret SUCCESS)) else f.at_ .permission
  | .permission =>
      .load f.ts fun ts =>
        if ts.denies f.euid then f.at_ (.unlockIndex (.ret (-EACCES)))
        else if f.command = REMOVE_TAG then f.at_ .waiters
        else if f.command = AWAKE_ALL then f.at_ .awakened
        else f.at_ (.ret (-ENOSYS))
  -- REMOVE_TAG
  | .waiters =>
      .load f.ts fun ts =>
        if ts.threadWaitingMessageCount > 0 then f.at_ (.unlockIndex .busy) else f.at_ .delete
  | .delete => .store f.ts .lazyDeleted (f.at_ (.unlockIndex .destroy))
  | .unlockIndex after => .load f.ts fun ts => { f with index := ts.tag }.at_ (.unlock after)
  | .unlock after =>
      .mutexUnlock f.index <|
        match after with
        | .ret r => f.at_ (.ret r)
        | .busy => f.at_ .busy
        | .destroy => f.at_ .destroyIndex
  -- The message printed here shows the counter of the service.
  | .busy => .load f.ts fun _ => f.at_ (.ret (-EBUSY))
  | .destroyIndex => .load f.ts fun ts => { f with index := ts.tag }.at_ (.destroy .lock)
  | .destroy pc =>
      (tsDestroyCharDeviceFile f.index pc).map fun
        | .go pc => f.at_ (.destroy pc)
        | .back _ => f.at_ .unlink
  | .unlink => .storeSlot f.tag none (f.at_ (.find .hint))
  | .find pc =>
      (findFirstEntryAvailable pc).map fun
        | .go pc => f.at_ (.find pc)
        | .back _ => f.at_ .incRemaining
  | .incRemaining => .incRemaining (f.at_ .kfree)
  | .kfree => .kfree f.ts (f.at_ (.ret SUCCESS))
  -- AWAKE_ALL
  | .awakened =>
      .load f.ts fun ts => { f with awakened := ts.threadWaitingMessageCount }.at_ .request
  | .request => .store f.ts (.awakeRequest true) (f.at_ .wakeUp)
  | .wakeUp => .wakeUpAll (if f.awakened > 0 then f.at_ .callRcu else f.at_ .reset)
  -- The callback releases the mutex.
  | .callRcu => .callRcu ⟨.resetAwakeCondition, f.ts, .clear, c⟩ (f.at_ (.ret SUCCESS))
  | .reset => .store f.ts (.awakeRequest false) (f.at_ (.unlockIndex (.ret SUCCESS)))
  | .ret r => .leave c.1 true (.user (some r))

end TagExchange
