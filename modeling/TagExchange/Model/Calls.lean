import TagExchange.Model.Effects

/-! What stays the same in a call from its first step to its last, its arguments, and the
stores that a call makes into services.
-/

namespace TagExchange

open Concurrency

variable {τ : Type}

/-- The second frame is a later one of the same call, or the call has returned. -/
def Frame.SameCall : Frame → Frame → Prop
  | get f, get f' =>
      f'.key = f.key ∧ f'.command = f.command ∧ f'.permission = f.permission ∧ f'.euid = f.euid
  | send f, send f' =>
      f'.tag = f.tag ∧ f'.level = f.level ∧ f'.buffer = f.buffer ∧ f'.size = f.size
      ∧ f'.euid = f.euid
  | receive f, receive f' =>
      f'.tag = f.tag ∧ f'.level = f.level ∧ f'.buffer = f.buffer ∧ f'.size = f.size
      ∧ f'.euid = f.euid
  | ctl f, ctl f' => f'.tag = f.tag ∧ f'.command = f.command ∧ f'.euid = f.euid
  | _, user _ => True
  | _, _ => False

/-- A step stays in its call, by cases on the program point. -/
theorem yields_sameCall (c : CallId τ) (frame : Frame) : (frame.op c).Yields frame.SameCall := by
  cases frame with
  | user last => trivial
  | get f =>
      obtain ⟨key, command, permission, euid, tag, ts, pc⟩ := f
      cases pc
      case find pc =>
        refine Op.yields_map (Op.yields_of_forall (fun next => ?_) _)
        cases next with
        | go pc => exact ⟨rfl, rfl, rfl, rfl⟩
        | back tag =>
            simp only [GetFrame.found]
            split <;> exact ⟨rfl, rfl, rfl, rfl⟩
      case device pc =>
        refine Op.yields_map (Op.yields_of_forall (fun next => ?_) _)
        cases next <;> exact ⟨rfl, rfl, rfl, rfl⟩
      case kzalloc =>
        intro n next choice
        dsimp only at choice
        split at choice
        · obtain rfl := Option.some.inj choice
          exact ⟨rfl, rfl, rfl, rfl⟩
        · split at choice <;> obtain rfl := Option.some.inj choice <;>
            exact ⟨rfl, rfl, rfl, rfl⟩
      case oops => trivial
      all_goals
        simp only [Frame.op, tagGet, Op.Yields]
        try intro value
        (repeat' split) <;> trivial
  | send f =>
      obtain ⟨tag, level, buffer, size, euid, realSize, stored, ts, pc⟩ := f
      cases pc
      case copyFromUser =>
        intro n next choice
        dsimp only at choice
        split at choice
        · obtain rfl := Option.some.inj choice
          exact ⟨rfl, rfl, rfl, rfl, rfl⟩
        · obtain ⟨-, same⟩ := Option.ite_none_right_eq_some.mp choice
          obtain rfl := Option.some.inj same
          exact ⟨rfl, rfl, rfl, rfl, rfl⟩
      case getPage => exact ⟨⟨rfl, rfl, rfl, rfl, rfl⟩, ⟨rfl, rfl, rfl, rfl, rfl⟩⟩
      case oops => trivial
      all_goals
        simp only [Frame.op, tagSend, Op.Yields]
        try intro value
        (repeat' split) <;> trivial
  | receive f =>
      obtain ⟨tag, level, buffer, size, euid, ts, realSize, interrupted, copied, pc⟩ := f
      cases pc
      case entered pc =>
        refine Op.yields_map (Op.yields_of_forall (fun next => ?_) _)
        cases next <;> exact ⟨rfl, rfl, rfl, rfl, rfl⟩
      case left x pc =>
        refine Op.yields_map (Op.yields_of_forall (fun next => ?_) _)
        cases next
        · exact ⟨rfl, rfl, rfl, rfl, rfl⟩
        · dsimp only
          split <;> exact ⟨rfl, rfl, rfl, rfl, rfl⟩
      all_goals
        simp only [Frame.op, tagReceive, Op.Yields]
        try intro value
        (repeat' split) <;> trivial
  | ctl f =>
      obtain ⟨tag, command, euid, ts, index, awakened, pc⟩ := f
      cases pc
      case find pc =>
        refine Op.yields_map (Op.yields_of_forall (fun next => ?_) _)
        cases next <;> exact ⟨rfl, rfl, rfl⟩
      case destroy pc =>
        refine Op.yields_map (Op.yields_of_forall (fun next => ?_) _)
        cases next <;> exact ⟨rfl, rfl, rfl⟩
      case unlock after => cases after <;> exact ⟨rfl, rfl, rfl⟩
      all_goals
        simp only [Frame.op, tagCtl, Op.Yields]
        try intro value
        (repeat' split) <;> trivial

theorem Kernel.exec_sameCall [DecidableEq τ] {k k' : Kernel τ} {external : Nat} {c : CallId τ}
    {before after : Frame} (step : k.exec external (before.op c) = some (k', after))
    : before.SameCall after :=
  Kernel.exec_yields (yields_sameCall c before) step

-----------------------------------------------------------------------------------------
-- Stores
-----------------------------------------------------------------------------------------

/-- The store into a service that a call makes at each program point. -/
def Frame.writes : Frame → Option (Ref × Write)
  | send f =>
      match f.pc with
      | .memcpy => some (f.ts, .memcpy f.level f.stored f.byte)
      | .terminator => some (f.ts, .terminator f.level f.stored)
      | .size => some (f.ts, .size f.level f.stored)
      | .ready => some (f.ts, .messageReady f.level true)
      | .notReady => some (f.ts, .messageReady f.level false)
      | .memset => some (f.ts, .memset f.level)
      | _ => none
  | receive f =>
      match f.pc with
      | .incCount => some (f.ts, .incCount)
      | .incLevel => some (f.ts, .incLevel f.level)
      | .decCount _ => some (f.ts, .decCount)
      | .decLevel _ => some (f.ts, .decLevel f.level)
      | _ => none
  | ctl f =>
      match f.pc with
      | .delete => some (f.ts, .lazyDeleted)
      | .request => some (f.ts, .awakeRequest true)
      | .reset => some (f.ts, .awakeRequest false)
      | _ => none
  | _ => none

/-- These are all the stores, by cases on the program point. -/
theorem op_writes (c : CallId τ) (frame : Frame) : (frame.op c).writes = frame.writes := by
  cases frame with
  | user last => rfl
  | get f =>
      obtain ⟨key, command, permission, euid, tag, ts, pc⟩ := f
      cases pc
      case find pc => cases pc <;> rfl
      case device pc => cases pc using CreateDevicePc.points <;> rfl
      all_goals rfl
  | send f =>
      obtain ⟨tag, level, buffer, size, euid, realSize, stored, ts, pc⟩ := f
      cases pc <;> rfl
  | receive f =>
      obtain ⟨tag, level, buffer, size, euid, ts, realSize, interrupted, copied, pc⟩ := f
      cases pc
      case entered pc => cases pc <;> rfl
      case left x pc => cases pc <;> rfl
      all_goals rfl
  | ctl f =>
      obtain ⟨tag, command, euid, ts, index, awakened, pc⟩ := f
      cases pc
      case find pc => cases pc <;> rfl
      case destroy pc => cases pc <;> rfl
      all_goals rfl

/-- Slots are stored into where a creation publishes and where a removal unlinks, by cases on the
program point.
-/
theorem point_of_stores {c : CallId τ} {frame : Frame} {i : Int} {stored : Option Ref}
    (stores : (frame.op c).stores = some (i, stored))
    : (∃ key command permission euid s,
        stored = some s ∧ frame = .get ⟨key, command, permission, euid, i, s, .publish⟩)
      ∨ ∃ command euid s index awakened,
          stored = none ∧ frame = .ctl ⟨i, command, euid, s, index, awakened, .unlink⟩ := by
  cases frame with
  | user last => cases stores
  | get f =>
      obtain ⟨key, command, permission, euid, tag, ts, pc⟩ := f
      cases pc
      case find pc => cases pc <;> cases stores
      case device pc =>
        cases pc using CreateDevicePc.points <;> cases stores
      all_goals cases stores
      exact .inl ⟨key, command, permission, euid, ts, rfl, rfl⟩
  | send f =>
      obtain ⟨tag, level, buffer, size, euid, realSize, stored, ts, pc⟩ := f
      cases pc <;> cases stores
  | receive f =>
      obtain ⟨tag, level, buffer, size, euid, ts, realSize, interrupted, copied, pc⟩ := f
      cases pc
      case entered pc => cases pc <;> cases stores
      case left x pc => cases pc <;> cases stores
      all_goals cases stores
  | ctl f =>
      obtain ⟨tag, command, euid, ts, index, awakened, pc⟩ := f
      cases pc
      case find pc => cases pc <;> cases stores
      case destroy pc => cases pc <;> cases stores
      all_goals cases stores
      exact .inr ⟨command, euid, ts, index, awakened, rfl, rfl⟩

/-- Only a removal frees a service, in its last step before it returns. -/
theorem point_of_frees {c : CallId τ} {frame : Frame} {s : Ref}
    (frees : (frame.op c).frees = some s)
    : ∃ tag command euid index awakened,
        frame = .ctl ⟨tag, command, euid, s, index, awakened, .kfree⟩ := by
  cases frame with
  | user last => cases frees
  | get f =>
      obtain ⟨key, command, permission, euid, tag, ts, pc⟩ := f
      cases pc
      case find pc => cases pc <;> cases frees
      case device pc =>
        cases pc using CreateDevicePc.points <;> cases frees
      all_goals cases frees
  | send f =>
      obtain ⟨tag, level, buffer, size, euid, realSize, stored, ts, pc⟩ := f
      cases pc <;> cases frees
  | receive f =>
      obtain ⟨tag, level, buffer, size, euid, ts, realSize, interrupted, copied, pc⟩ := f
      cases pc
      case entered pc => cases pc <;> cases frees
      case left x pc => cases pc <;> cases frees
      all_goals cases frees
  | ctl f =>
      obtain ⟨tag, command, euid, ts, index, awakened, pc⟩ := f
      cases pc
      case find pc => cases pc <;> cases frees
      case destroy pc => cases pc <;> cases frees
      all_goals cases frees
      exact ⟨tag, command, euid, index, awakened, rfl⟩

/-- The service that a call allocates at a program point. -/
def Frame.allocates : Frame → Option TagService
  | get f =>
      match f.pc with
      | .fields => some (TagService.created f.key f.tag f.permission f.euid)
      | _ => none
  | _ => none

theorem op_allocates (c : CallId τ) (frame : Frame)
    : (frame.op c).allocates = frame.allocates := by
  cases frame with
  | user last => rfl
  | get f =>
      obtain ⟨key, command, permission, euid, tag, ts, pc⟩ := f
      cases pc
      case find pc => cases pc <;> rfl
      case device pc => cases pc using CreateDevicePc.points <;> rfl
      all_goals rfl
  | send f =>
      obtain ⟨tag, level, buffer, size, euid, realSize, stored, ts, pc⟩ := f
      cases pc <;> rfl
  | receive f =>
      obtain ⟨tag, level, buffer, size, euid, ts, realSize, interrupted, copied, pc⟩ := f
      cases pc
      case entered pc => cases pc <;> rfl
      case left x pc => cases pc <;> rfl
      all_goals rfl
  | ctl f =>
      obtain ⟨tag, command, euid, ts, index, awakened, pc⟩ := f
      cases pc
      case find pc => cases pc <;> rfl
      case destroy pc => cases pc <;> rfl
      all_goals rfl

theorem Frame.eq_created_of_allocates {frame : Frame} {ts : TagService}
    (allocates : frame.allocates = some ts)
    : ∃ key tag permission euid, ts = TagService.created key tag permission euid := by
  cases frame with
  | get f =>
      obtain ⟨key, command, permission, euid, tag, s, pc⟩ := f
      cases pc <;> cases allocates
      exact ⟨key, tag, permission, euid, rfl⟩
  | _ => cases allocates

end TagExchange
