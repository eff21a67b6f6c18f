import TagExchange.Model.CallerMoves
import TagExchange.Model.DeviceMoves
import TagExchange.Model.ReceiveMoves

/-! The calls that follow a pointer without a check and never return: where they stand then, and
the steps that bring them there.
-/

namespace TagExchange

variable {τ : Type}

/-- The routine goes on, and to a program point of this kind. -/
def Then.any {α β : Type} (kind : α → Bool) : Then α β → Bool
  | .go pc => kind pc
  | .back _ => false

/-- `update_chrdev` has followed a NULL pointer. -/
def UpdatePc.oopsed : UpdatePc → Bool
  | .oops => true
  | _ => false

/-- The call has followed a pointer that it has not checked, and never goes on. -/
def Frame.oopsed : Frame → Bool
  | get f =>
      match f.pc with
      | .oops | .device (.fill none) | .device .oops => true
      | _ => false
  | send f =>
      match f.pc with
      | .oops _ => true
      | _ => false
  | receive f =>
      match f.pc.update with
      | some pc => pc.oopsed
      | none => false
  | _ => false

/-- `ts_create_char_device_file` has no service to read, or no memory for the text. -/
def CreateDevicePc.doomed : CreateDevicePc → Bool
  | .content none | .noContent | .fill none | .oops => true
  | _ => false

/-- The call has oopsed, or comes to it whatever the others do. -/
def Frame.doomed : Frame → Bool
  | get f =>
      match f.pc with
      | .device pc => pc.doomed
      | .oops => true
      | _ => false
  | frame => frame.oopsed

/-- The device is there, and there is no service or no memory for its text. -/
def CreateDevicePc.strays (external : Nat) : CreateDevicePc → Bool
  | .node ts => if external = 0 then ts.isNone else decide (external ≠ 1)
  | _ => false

/-- The text that `update_chrdev` copies is missing, or the memory for the copy. -/
def UpdatePc.strays (k : Kernel τ) (external : Nat) : UpdatePc → Bool
  | .read i _ => (k.dm.copied i external).isNone
  | _ => false

/-- In this state and with this value from outside the module, the next step of the call takes a
pointer that it goes on to follow without a check: no page, a message that runs out of mapped
memory, the entry of `OPEN_TAG` emptied since its check, no service, text or memory for a device.
-/
def Frame.strays (k : Kernel τ) (external : Nat) : Frame → Bool
  | get f =>
      match f.pc with
      | .loadOpened => (k.tsm.allTagServices f.tag).isNone
      | .device pc => pc.strays external
      | _ => false
  | send f =>
      match f.pc with
      | .getPage => decide (external ≠ 0)
      | .copyFromUser => decide (f.realSize < external)
      | _ => false
  | receive f =>
      match f.pc.update with
      | some pc => pc.strays k external
      | none => false
  | _ => false

variable [DecidableEq τ] {k k' : Kernel τ} {external : Nat}

/-- A call that has oopsed was doomed. -/
theorem doomed_of_oopsed {frame : Frame} (oopsed : frame.oopsed = true) : frame.doomed = true := by
  cases frame with
  | get f =>
      obtain ⟨key, command, permission, euid, tag, ts, pc⟩ := f
      cases pc
      case device pc =>
        cases pc using CreateDevicePc.points <;> first | rfl | cases oopsed
      all_goals first | rfl | cases oopsed
  | _ => exact oopsed

/-- A call that has returned was not. -/
theorem not_doomed_of_idle {frame : Frame} (idle : frame.idle = true) : frame.doomed = false := by
  cases frame with
  | user last => rfl
  | _ => cases idle

theorem created_doomed {tagMinor : Int} {pc : CreateDevicePc} {next : Then CreateDevicePc Unit}
    (step : k.exec external (tsCreateCharDeviceFile tagMinor pc) = some (k', next))
    : next.any CreateDevicePc.doomed = (pc.doomed || pc.strays external) := by
  cases pc
  case lock ts =>
    obtain ⟨-, step⟩ := Option.ite_none_left_eq_some.mp step
    obtain ⟨-, rfl⟩ := Prod.mk.inj (Option.some.inj step)
    rfl
  case fill ts =>
    cases ts with
    | none => cases step
    | some s =>
        obtain ⟨-, rfl⟩ := Prod.mk.inj (Option.some.inj step)
        rfl
  case oops => cases step
  all_goals obtain ⟨-, rfl⟩ := Prod.mk.inj (Option.some.inj step)
  case add ts => by_cases added : external = 0 <;> simp [added] <;> rfl
  case node ts =>
    by_cases made : external = 0
    · cases ts <;> simp [made, Then.any, CreateDevicePc.doomed, CreateDevicePc.strays]
    · by_cases failed : external = 1 <;>
        simp [made, failed, Then.any, CreateDevicePc.doomed, CreateDevicePc.strays]
  case content ts => cases ts <;> rfl
  case print s n rows =>
    dsimp only
    split <;> rfl
  case unlock failed => cases failed <;> rfl
  all_goals rfl

omit [DecidableEq τ] in
theorem UpdateMove.oopsed {tagMinor level : Int} {pc : UpdatePc} {next : Then UpdatePc Unit}
    (move : UpdateMove k external tagMinor level pc next)
    : next.any UpdatePc.oopsed = (pc.oopsed || pc.strays k external) := by
  cases move with
  | blank nothing => simp [Then.any, UpdatePc.oopsed, UpdatePc.strays, nothing]
  | read found => simp [Then.any, UpdatePc.oopsed, UpdatePc.strays, found]
  | _ => rfl

/-- A call is doomed from the step that strays, by cases on the program point. -/
theorem doomed_of_exec {c : CallId τ} {before after : Frame}
    (step : k.exec external (before.op c) = some (k', after))
    : after.doomed = (before.doomed || before.strays k external) := by
  cases before with
  | user last => cases step
  | get f =>
      have move := getMove_of_exec step
      obtain ⟨key, command, permission, euid, tag, ts, pc⟩ := f
      cases pc
      case device pc =>
        obtain ⟨next, inner, rfl⟩ := Kernel.exec_map_eq_some step
        have law := created_doomed inner
        cases next <;> exact law
      case oops => cases step
      case loadOpened =>
        obtain ⟨-, rfl⟩ := Prod.mk.inj (Option.some.inj step)
        cases found : k.tsm.allTagServices tag <;>
          simp [GetFrame.at_, Frame.doomed, Frame.strays, found]
      all_goals cases move <;> rfl
  | send f =>
      change k.exec external (tagSend c f) = _ at step
      have move := sendMove_of_exec step
      obtain ⟨tag, level, buffer, size, euid, realSize, stored, ts, pc⟩ := f
      cases pc
      case getPage =>
        obtain ⟨external, rfl⟩ | ⟨external, rfl⟩ := page_of_exec rfl step <;>
          simp [SendFrame.at_, Frame.doomed, Frame.oopsed, Frame.strays, external]
      case copyFromUser =>
        obtain ⟨external, rfl⟩ | ⟨⟨external, -⟩, rfl⟩ := copy_of_exec rfl step <;>
          simpa [SendFrame.at_, Frame.doomed, Frame.oopsed, Frame.strays] using external
      all_goals cases move <;> rfl
  | receive f =>
      have move := receiveMove_of_exec step
      obtain ⟨tag, level, buffer, size, euid, ts, realSize, interrupted, copied, pc⟩ := f
      cases pc
      case entered pc =>
        obtain ⟨next, inner, rfl⟩ := Kernel.exec_map_eq_some step
        have law := (updateMove_of_exec inner).oopsed
        cases next <;> exact law
      case left x pc =>
        obtain ⟨next, inner, rfl⟩ := Kernel.exec_map_eq_some step
        have law := (updateMove_of_exec inner).oopsed
        cases next with
        | go pc' => exact law
        | back =>
            dsimp only
            split <;> exact law
      all_goals cases move <;> rfl
  | ctl f =>
      have move := ctlMove_of_exec step
      obtain ⟨tag, command, euid, ts, index, awakened, pc⟩ := f
      cases move <;> rfl

end TagExchange
