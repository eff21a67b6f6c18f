import TagExchange.Model.Routines

/-! `sys_tag_get`. -/

namespace TagExchange

variable {τ : Type}

namespace GetFrame

/-- The frame moves on to another program point. -/
def at_ (f : GetFrame) (pc : GetPc) : Frame := .get { f with pc := pc }

/-- The arguments `tag_get` accepts. -/
def ValidArguments (f : GetFrame) : Prop :=
  (f.permission = EVERYONE ∨ f.permission = ONLY_OWNER)
  ∧ (f.command = CREATE_TAG ∨ f.command = OPEN_TAG)

instance (f : GetFrame) : Decidable f.ValidArguments :=
  inferInstanceAs (Decidable (_ ∧ _))

/-- After the search: no entry is left for a creation, or the call goes on to the lock. -/
def found (f : GetFrame) (tag : Int) : Frame :=
  if tag = -1 ∧ f.command = CREATE_TAG then f.at_ (.ret (-ENOMEM))
  else { f with tag := tag }.at_ .lock

end GetFrame

/-- The number of `kzalloc` calls of one creation: the service, its level array and the
message of every level. They touch unpublished memory only, so they are one step, whose
external value is how many of them succeed before the first failure.
-/
def creationAllocations : Nat := 34

def tagGet (t : τ) (f : GetFrame) : Op τ Frame :=
  match f.pc with
  | .entry =>
      .tryModuleGet <|
        if ¬ f.ValidArguments then f.at_ (.ret (-EINVAL))
        else if f.key ≠ IPC_PRIVATE then { f with tag := hashFunction f.key }.at_ .lock
        else f.at_ (.find .hint)
  | .find pc =>
      (findFirstEntryAvailable pc).map fun
        | .go pc => f.at_ (.find pc)
        | .back tag => f.found tag
  | .lock =>
      .mutexLock f.tag <|
        if f.command = CREATE_TAG then f.at_ .available
        else if f.command = OPEN_TAG then f.at_ .opened
        else f.at_ (.unlock (-ENOSYS))
  -- CREATE_TAG
  | .available =>
      .loadSlot f.tag fun ts => if ts.isSome then f.at_ (.unlock (-ENOKEY)) else f.at_ .kzalloc
  | .kzalloc =>
      .external fun n =>
        if n = 0 then some (f.at_ (.unlock (-EFAULT)))
        else if n < creationAllocations then some (f.at_ (.unlock (-ENOMEM)))
        else some (f.at_ .fields)
  | .fields =>
      .kzalloc (TagService.created f.key f.tag f.permission f.euid) fun s =>
        { f with ts := s }.at_ .publish
  | .publish => .storeSlot f.tag (some f.ts) (f.at_ .unlockCreated)
  | .unlockCreated => .mutexUnlock f.tag (f.at_ .decRemaining)
  | .decRemaining => .decRemaining (f.at_ (.device .load))
  | .device pc =>
      (tsCreateCharDeviceFile f.tag pc).map fun
        | .go pc => f.at_ (.device pc)
        | .back _ => f.at_ .print
  -- The message printed at the end shows `ts->tag`.
  | .print => .load f.ts fun _ => f.at_ (.ret f.tag)
  -- OPEN_TAG
  | .opened =>
      .loadSlot f.tag fun ts =>
        if ts.isSome ∧ f.key ≠ IPC_PRIVATE then f.at_ .loadOpened else f.at_ (.unlock (-EBADR))
  | .loadOpened =>
      .loadSlot f.tag fun
        | some s => { f with ts := s }.at_ .lazyDeleted
        | none => f.at_ .oops
  | .lazyDeleted =>
      .load f.ts fun ts =>
        if ts.lazyDeleted then f.at_ (.unlock (-EBADR)) else f.at_ .permission
  | .permission =>
      .load f.ts fun ts =>
        if ts.denies f.euid then f.at_ .unlockDenied else f.at_ (.unlock f.tag)
  | .unlockDenied => .mutexUnlock f.tag (f.at_ .denied)
  -- The message shows `ts->permission` and `ts->owner_euid`.
  | .denied => .load f.ts fun _ => f.at_ (.ret (-EACCES))
  | .unlock r => .mutexUnlock f.tag (f.at_ (.ret r))
  | .ret r => .leave t true (.user (some r))
  | .oops => .oops

end TagExchange
